import Nullness.Text.Basic

/-!
# Case-insensitive comparison with ASCII names

Nullability names and configuration keys are ASCII, but what is compared with
them is arbitrary text.  Two characters outside ASCII differ from an ASCII
letter only in case: the Kelvin sign U+212A from `k` and the long s U+017F from
`s`.  All other characters outside ASCII are left alone, so that they never
match an ASCII name.
-/

namespace Nullness
namespace Text

/-- The lower-case form of an ASCII byte. -/
def lowerByte (b : UInt8) : UInt8 :=
  if byte 'A' ≤ b && b ≤ byte 'Z' then b + 0x20 else b

/-- The form of a text that two texts share if they differ only in the case of
letters that have an ASCII form. -/
def fold : Text → Text
  | 0xE2 :: 0x84 :: 0xAA :: rest => byte 'k' :: fold rest
  | 0xC5 :: 0xBF :: rest => byte 's' :: fold rest
  | b :: rest => lowerByte b :: fold rest
  | [] => []

/-- Whether a text is the ASCII name, letters in either case. -/
def matchesName (name t : Text) : Bool :=
  fold t == fold name

end Text
end Nullness
