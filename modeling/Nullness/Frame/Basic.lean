import Nullness.Failure
import Nullness.Frame.Error
import Nullness.Value

/-!
# Frames

A frame is the state of the abstract machine before an instruction: the local
variables and the operand stack.  A value of two slots is one entry of the
stack, but counts twice against the stack bound; among the local variables it
takes its slot and the next one, which is marked as unusable.

The operations are actions on a frame.  An action that fails keeps what it did
before: taking a value of the wrong size from the stack removes it all the
same.
-/

namespace Nullness

/-- A state of the abstract machine. -/
structure Frame where
  locals : List Value
  /-- The operand stack, its top first. -/
  stack : List Value
  /-- The number of slots that the stack entries take together. -/
  slots : Nat
  /-- The number of slots that the stack may take. -/
  maxStack : Nat
  deriving DecidableEq, Repr

namespace Frame

/-- A frame with every local variable unwritten and an empty stack. -/
def new (maxLocals maxStack : Nat) : Frame where
  locals := List.replicate maxLocals Value.empty
  stack := []
  slots := 0
  maxStack := maxStack

/-- A frame for bounds as a caller gives them.  There is no table of negative
size. -/
def ofBounds (maxLocals maxStack : Int64) : Except (Failure Error) Frame :=
  if maxLocals.toInt < 0 ∨ maxStack.toInt < 0 then .error .crash
  else .ok (new maxLocals.toInt.toNat maxStack.toInt.toNat)

/-- An operation on a frame that can fail.  What it did before it failed stays
done. -/
abbrev Action := EStateM (Failure Error) Frame

/-- Refuses an operation. -/
def refuse {α : Type} (e : Error) : Action α := throw (.error e)

/-- The content of the local variable at an index, if there is one. -/
def local? (f : Frame) (index : Int64) : Option Value :=
  if index.toInt < 0 then none else f.locals[index.toInt.toNat]?

/-- The raw content of a local variable. -/
def getLocal (index : Int64) : Action Value := fun f =>
  match f.local? index with
  | some v => .ok v f
  | none => refuse (.readRange index f.locals.length) f

/-- The value in a local variable, which must be usable and of the given
size. -/
def loadLocal (index : Int64) (size : UInt8) : Action Value := fun f =>
  match f.local? index with
  | none => refuse (.readRange index f.locals.length) f
  | some v =>
    if v.isEmpty || v.isConflict then refuse (.unusableLocal index) f
    else if v.size ≠ size then refuse (.localSize index v.size size) f
    else .ok v f

/-- Local variables after a value is stored at an index.  The lower half of a
value of two slots becomes unusable when its upper half is overwritten, and a
stored value of two slots claims the next slot. -/
def storeAt (locals : List Value) (index : Nat) (v : Value) : List Value :=
  let locals :=
    if 0 < index ∧ (locals[index - 1]?).any (·.size = 2) then
      locals.set (index - 1) Value.conflict
    else locals
  let locals := locals.set index v
  if v.size = 2 then locals.set (index + 1) Value.conflict else locals

/-- The last local variable that is written when a value of a size is stored at
an index. -/
def lastWritten (index : Nat) (size : UInt8) : Nat :=
  if size = 2 then index + 1 else index

/-- Stores a value in a local variable.  The bound is compared with the end of
the value in 64-bit arithmetic, so that an index at the end of that range
passes and the store then reaches outside the local variables. -/
def setLocal (index : Int64) (v : Value) : Action Unit := fun f =>
  if index.toInt < 0
      ∨ (f.locals.length : Int) < (index + Int64.ofNat v.size.toNat).toInt then
    refuse (.storeRange index v.size f.locals.length) f
  else if lastWritten index.toInt.toNat v.size < f.locals.length then
    .ok () { f with locals := storeAt f.locals index.toInt.toNat v }
  else .error .crash f

/-- The stack entry at a depth below the top, which has depth zero. -/
def peek? (f : Frame) (depth : Int) : Option Value :=
  if depth < 0 then none else f.stack[depth.toNat]?

/-- Puts a value on the stack. -/
def push (v : Value) : Action Unit := fun f =>
  if v.size ≠ 1 ∧ v.size ≠ 2 then refuse (.pushSize v.size) f
  else if f.maxStack < f.slots + v.size.toNat then
    refuse (.stackOverflow f.maxStack) f
  else
    .ok () { f with stack := v :: f.stack, slots := f.slots + v.size.toNat }

/-- Takes the top entry from the stack. -/
def pop : Action Value := fun f =>
  match f.stack with
  | [] => refuse .stackUnderflow f
  | v :: rest =>
    .ok v { f with stack := rest, slots := f.slots - v.size.toNat }

/-- Takes the top entry from the stack, which must have the given size. -/
def popSized (size : UInt8) : Action Value := do
  let v ← pop
  if v.size ≠ size then refuse (.popSize v.size size) else return v

/-- Takes one entry for each of the given sizes, the top entry first. -/
def popSizes : List UInt8 → Action Unit
  | [] => return ()
  | size :: sizes => do
    let _ ← popSized size
    popSizes sizes

/-- Puts values on the stack, the deepest first. -/
def pushAll : List Value → Action Unit
  | [] => return ()
  | v :: vs => do
    push v
    pushAll vs

/-- Takes a number of entries of one slot from the stack. -/
def popN : Nat → Action Unit
  | 0 => return ()
  | n + 1 => do
    let _ ← popSized 1
    popN n

/-- The frame with an empty stack. -/
def clearStack (f : Frame) : Frame := { f with stack := [], slots := 0 }

/-- The first position, counted from `entry`, where two lists of values differ
in size, with the two sizes. -/
def sizeClash? (entry : Nat) : List Value → List Value →
    Option (Nat × UInt8 × UInt8)
  | v :: vs, w :: ws =>
    if v.size ≠ w.size then some (entry, v.size, w.size)
    else sizeClash? (entry + 1) vs ws
  | _, _ => none

/-- Whether merging the second list into the first changes a slot. -/
def slotsChange (vs ws : List Value) : Bool :=
  (List.zipWith (fun v w => decide (v.merge w ≠ v)) vs ws).any id

/-- Joins the second frame into the first, slot by slot, and says whether this
changes the first.  Both must have as many local variables and stack entries,
and stack entries must agree in size. -/
def merge (f g : Frame) : Except Error (Frame × Bool) :=
  if f.locals.length ≠ g.locals.length then
    .error (.mergeLocals f.locals.length g.locals.length)
  else if f.stack.length ≠ g.stack.length then
    .error (.mergeHeight f.stack.length g.stack.length)
  else match sizeClash? 0 f.stack.reverse g.stack.reverse with
    | some (entry, left, right) => .error (.mergeSize entry left right)
    | none =>
      .ok ({ f with
          locals := List.zipWith Value.merge f.locals g.locals
          stack := List.zipWith Value.merge f.stack g.stack },
        slotsChange f.stack g.stack || slotsChange f.locals g.locals)

/-- A list of values between brackets. -/
def renderValues (vs : List Value) : Text :=
  text "[" ++ Text.join (text " ") (vs.map Value.render) ++ text "]"

/-- A frame as text: its local variables, then its stack with the top last. -/
def render (f : Frame) : Text :=
  renderValues f.locals ++ text " " ++ renderValues f.stack.reverse

end Frame
end Nullness
