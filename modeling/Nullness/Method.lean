import Nullness.Instruction

/-!
# Methods

A method is what the analysis looks at: a list of instructions, an exception
table, and what the declaration says about stack, local variables and
parameters.
-/

namespace Nullness

/-- An entry of an exception table.  Instructions from `start` up to, and not
including, `stop` are protected, and control goes to `target` when one of them
throws.  An empty type catches everything. -/
structure Handler where
  start : Int64
  stop : Int64
  target : Int64
  type : Text
  deriving DecidableEq, Repr

namespace Handler

/-- Whether the instruction at a position is protected. -/
def covers (h : Handler) (pos : Int) : Bool :=
  h.start.toInt ≤ pos && pos < h.stop.toInt

end Handler

/-- A method with everything the analysis needs from its declaration. -/
structure Method where
  /-- The class that declares the method; it may be missing. -/
  owner : Text
  name : Text
  desc : Text
  isStatic : Bool
  maxStack : Int64
  maxLocals : Int64
  instructions : List Instruction
  handlers : List Handler
  /-- What is declared about the nullability of each parameter, in order.
  Missing entries say nothing. -/
  params : List Nullability
  deriving DecidableEq, Repr

namespace Method

/-- A method as text: its class, its name and its descriptor. -/
def signature (m : Method) : Text :=
  if m.owner.isEmpty then m.name ++ m.desc
  else m.owner ++ text "." ++ m.name ++ m.desc

/-- What is declared about the parameter at an index. -/
def paramAt (m : Method) (index : Int) : Nullability :=
  if index < 0 then .unknown else m.params[index.toNat]?.getD .unknown

end Method
end Nullness
