import Nullness.Text.Folding
import Nullness.Text.Quoted

/-!
# Nullabilities

A nullability says what is known about a reference.  Four of them matter:
`unknown` (nothing has been seen yet) lies below `null` and `nonNull`, and both
lie below `nullable`.  A nullability is stored as a byte; the other bytes are
accepted, and print as invalid.
-/

namespace Nullness

/-- What is known about whether a value is the null reference. -/
structure Nullability where
  code : UInt8
  deriving DecidableEq, Repr

namespace Nullability

/-- Nothing has been seen yet; the least nullability. -/
def unknown : Nullability := ⟨0⟩

/-- Certainly the null reference. -/
def null : Nullability := ⟨1⟩

/-- Certainly not the null reference; primitive values are of this kind. -/
def nonNull : Nullability := ⟨2⟩

/-- Possibly the null reference. -/
def nullable : Nullability := ⟨3⟩

/-- The name of a nullability. -/
def name (n : Nullability) : Text :=
  if n = unknown then text "UNKNOWN"
  else if n = null then text "NULL"
  else if n = nonNull then text "NONNULL"
  else if n = nullable then text "NULLABLE"
  else text "INVALID"

/-- What is known of a value that is one of two: `unknown` adds nothing, and two
different nullabilities make `nullable`. -/
def merge (a b : Nullability) : Nullability :=
  if a = b then a
  else if a = unknown then b
  else if b = unknown then a
  else nullable

/-- The order of nullabilities: `a` adds nothing to `b`. -/
def le (a b : Nullability) : Bool := merge a b = b

/-- Whether dereferencing a value of this nullability may fail. -/
def isViolation (n : Nullability) : Bool := n = null || n = nullable

/-- The nullabilities that can be written by name. -/
def named : List Nullability := [unknown, null, nonNull, nullable]

/-- Reads the name of a nullability, letters in either case. -/
def ofName? (t : Text) : Option Nullability :=
  named.find? fun n => Text.matchesName n.name t

/-- The message for a text that names no nullability. -/
def unknownNameMessage (t : Text) : Text :=
  text "unknown nullability " ++ Text.quote t

end Nullability
end Nullness
