import Nullness.Opcode

/-!
# Instructions

An instruction is an opcode with its operands.  Any opcode can come with any
operands; whether they fit together shows when the instruction is carried out.
Control flow refers to instructions by their position in the method.
-/

namespace Nullness

/-- The kind of a constant, as a number. -/
structure ConstantKind where
  code : UInt8
  deriving DecidableEq, Repr

namespace ConstantKind

/-- An integer. -/
def int : ConstantKind := ⟨0⟩

/-- A floating-point number. -/
def float : ConstantKind := ⟨1⟩

/-- An integer of two slots. -/
def long : ConstantKind := ⟨2⟩

/-- A floating-point number of two slots. -/
def double : ConstantKind := ⟨3⟩

/-- A string. -/
def string : ConstantKind := ⟨4⟩

/-- A class. -/
def class_ : ConstantKind := ⟨5⟩

/-- A constant that is computed when it is first used. -/
def dynamic : ConstantKind := ⟨8⟩

end ConstantKind

/-- An instruction with its operands. -/
inductive Instruction where
  | plain (op : Opcode)
  | int (op : Opcode) (operand : Int64)
  | var (op : Opcode) (index : Int64)
  | increment (index amount : Int64)
  | typed (op : Opcode) (desc : Text)
  | field (op : Opcode) (owner name desc : Text)
  | method (op : Opcode) (owner name desc : Text) (isInterface : Bool)
  | dynamic (name desc : Text)
  | jump (op : Opcode) (target : Int64)
  | constant (kind : ConstantKind)
  | tableSwitch (min max default : Int64) (targets : List Int64)
  | lookupSwitch (default : Int64) (keys targets : List Int64)
  | multiArray (desc : Text) (dims : Int64)
  deriving DecidableEq, Repr

namespace Instruction

/-- The opcode of an instruction. -/
def opcode : Instruction → Opcode
  | .plain op | .int op _ | .var op _ | .typed op _ | .field op _ _ _
  | .method op _ _ _ _ | .jump op _ => op
  | .increment _ _ => .iinc
  | .dynamic _ _ => .invokedynamic
  | .constant _ => .ldc
  | .tableSwitch _ _ _ _ => .tableswitch
  | .lookupSwitch _ _ _ => .lookupswitch
  | .multiArray _ _ => .multianewarray

end Instruction
end Nullness
