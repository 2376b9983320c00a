import Nullness.Text.Basic

/-!
# Decimal integers

Reading a signed decimal integer of 64 bits.  `decimal?` accepts an optional
sign and one or more digits, and nothing else.
-/

namespace Nullness
namespace Number

/-- The value of a decimal digit. -/
def digit? (b : UInt8) : Option Nat :=
  if byte '0' ≤ b && b ≤ byte '9' then some (b.toNat - 48) else none

/-- The number written by a non-empty list of decimal digits. -/
def natural? (digits : Text) : Option Nat :=
  if digits.isEmpty then none
  else digits.foldlM (fun n b => (digit? b).map (n * 10 + ·)) 0

/-- Separates an optional sign from the rest; the sign is true for minus. -/
def signed : Text → Bool × Text
  | [] => (false, [])
  | b :: rest =>
    if b = byte '-' then (true, rest)
    else if b = byte '+' then (false, rest)
    else (false, b :: rest)

/-- The integer as a 64-bit word, if it fits. -/
def word? (i : Int) : Option Int64 :=
  if Int64.minValue.toInt ≤ i ∧ i ≤ Int64.maxValue.toInt then
    some (Int64.ofInt i)
  else none

/-- The 64-bit integer written by an optional sign and decimal digits. -/
def decimal? (t : Text) : Option Int64 :=
  let (negative, digits) := signed t
  (natural? digits).bind fun n => word? (if negative then -n else n)

end Number
end Nullness
