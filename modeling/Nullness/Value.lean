import Nullness.Nullability

/-!
# Slot values

A value is the content of one entry of the operand stack or of one local
variable: a nullability and the number of slots the value takes, one or two.
Two values mark a local variable that cannot be read: `empty` has not been
written on any path seen so far, and `conflict` holds different things on
different paths, or is the upper half of a value of two slots.

Values are ordered slot by slot: `empty` is below everything, `conflict` above
everything, and values of one size are ordered as their nullabilities are.
-/

namespace Nullness

/-- The content of a stack entry or of a local variable. -/
structure Value where
  nullability : Nullability
  size : UInt8
  deriving DecidableEq, Repr

namespace Value

/-- A local variable that has not been written on any path seen so far. -/
def empty : Value := ⟨.unknown, 1⟩

/-- A local variable that holds nothing usable. -/
def conflict : Value := ⟨.unknown, 0⟩

/-- A reference of the given nullability. -/
def ref (n : Nullability) : Value := ⟨n, 1⟩

/-- The null reference. -/
def null : Value := ref .null

/-- A reference that is certainly not null. -/
def nonNull : Value := ref .nonNull

/-- A reference that may be null. -/
def nullable : Value := ref .nullable

/-- A primitive value of the given size. -/
def primitive (size : UInt8) : Value := ⟨.nonNull, size⟩

/-- Whether a local variable with this content holds nothing usable. -/
def isConflict (v : Value) : Bool := v.size = 0

/-- Whether a local variable with this content has not been written. -/
def isEmpty (v : Value) : Bool := v.nullability = .unknown && v.size ≠ 0

/-- The content of a slot that two paths reach with the given contents.  An
unwritten slot adds nothing, and contents of different sizes conflict. -/
def merge (a b : Value) : Value :=
  if a = b then a
  else if a.isConflict || b.isConflict then conflict
  else if a.isEmpty then b
  else if b.isEmpty then a
  else if a.size ≠ b.size then conflict
  else ⟨a.nullability.merge b.nullability, a.size⟩

/-- A value as it is shown in a frame. -/
def render (v : Value) : Text :=
  if v.isConflict then text "-"
  else if v.isEmpty then text "."
  else if v.size = 2 then v.nullability.name ++ text "/2"
  else v.nullability.name

end Value
end Nullness
