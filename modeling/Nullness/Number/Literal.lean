import Nullness.Number.Decimal
import Nullness.Text.Folding

/-!
# Number literals

A constant operand is a number if it is an integer or a floating-point
literal.  Only the question whether it is one matters, never its value, except
that a literal too large for its type is none: integers have 64 bits, and
floating-point values are doubles.
-/

namespace Nullness
namespace Number

/-- The value of a digit in bases up to sixteen, letters in either case. -/
def baseDigit? (b : UInt8) : Option Nat :=
  if byte '0' ≤ b && b ≤ byte '9' then some (b.toNat - 48)
  else
    let l := Text.lowerByte b
    if byte 'a' ≤ l && l ≤ byte 'f' then some (l.toNat - 87) else none

/-- The base named by a prefix such as `0x`, and what follows the prefix.  A
prefix names a base only if something follows it. -/
def baseLetter? : Text → Option (Nat × Text)
  | zero :: letter :: b :: rest =>
    if zero = byte '0' then
      let l := Text.lowerByte letter
      if l = byte 'b' then some (2, b :: rest)
      else if l = byte 'o' then some (8, b :: rest)
      else if l = byte 'x' then some (16, b :: rest)
      else none
    else none
  | _ => none

/-- Whether every underscore stands between two digits, where `afterDigit`
says whether a digit, or a base prefix, stands just before. -/
def underscoresSeparate (isDigit : UInt8 → Bool) :
    (afterDigit : Bool) → Text → Bool
  | _, [] => true
  | afterDigit, b :: rest =>
    if b = byte '_' then
      afterDigit
        && (match rest with
          | [] => false
          | next :: _ => isDigit next)
        && underscoresSeparate isDigit false rest
    else underscoresSeparate isDigit (isDigit b) rest

/-- The text without its underscores. -/
def withoutUnderscores (t : Text) : Text :=
  t.filter (· ≠ byte '_')

/-- The number written in a base; no digits at all write zero. -/
def inBase? (base : Nat) (digits : Text) : Option Nat :=
  digits.foldlM
    (fun n b => do
      let d ← baseDigit? b
      if d < base then some (n * base + d) else none)
    0

/-- Whether a byte is a decimal digit. -/
def isDigit (b : UInt8) : Bool := (digit? b).isSome

/-- Whether a byte is a hexadecimal digit. -/
def isHexDigit (b : UInt8) : Bool := (baseDigit? b).isSome

/-- The value of an unsigned integer literal: digits after a base prefix, octal
digits after a zero, or decimal digits; underscores may separate digits. -/
def unsignedLiteral? (t : Text) : Option Nat :=
  match baseLetter? t with
  | some (base, digits) =>
    let digit := if base = 16 then isHexDigit else isDigit
    if underscoresSeparate digit true digits then
      inBase? base (withoutUnderscores digits)
    else none
  | none =>
    match t with
    | [] => none
    | b :: rest =>
      if underscoresSeparate isDigit false t then
        if b = byte '0' then inBase? 8 (withoutUnderscores rest)
        else inBase? 10 (withoutUnderscores t)
      else none

/-- Whether a text is an integer literal of 64 bits. -/
def isInteger (t : Text) : Bool :=
  let (negative, digits) := signed t
  ((unsignedLiteral? digits).bind fun n =>
    word? (if negative then -n else n)).isSome

/-- The exponent written by decimal digits.  Digits after the fifth add
nothing: such an exponent is beyond every double anyway. -/
def exponentValue (digits : Text) : Nat :=
  digits.foldl
    (fun e b => if e < 10000 then e * 10 + (digit? b).getD 0 else e) 0

/-- The exponent of a floating-point literal: an optional sign and digits. -/
def exponent? (t : Text) : Option Int :=
  let (negative, digits) := signed t
  if digits.isEmpty || !digits.all isDigit then none
  else
    let e : Int := exponentValue digits
    some (if negative then -e else e)

/-- Half a step above the largest double: the least value that rounds beyond
it. -/
def doubleLimit : Nat := Nat.pow 2 1024 - Nat.pow 2 970

/-- Whether `mantissa * base ^ scale` rounds to a finite double, for `base`
either ten or two.  The number of digits decides all but the close cases. -/
def isFinite (base mantissa : Nat) (scale : Int) : Bool :=
  if mantissa = 0 then true
  else
    let magnitude : Int := (Nat.toDigits base mantissa).length + scale
    let (low, high) : Int × Int :=
      if base = 10 then (300, 310) else (1000, 1100)
    if high < magnitude then false
    else if magnitude < low then true
    else if 0 ≤ scale then mantissa * Nat.pow base scale.toNat < doubleLimit
    else mantissa < doubleLimit * Nat.pow base (-scale).toNat

/-- The digits before and after an optional point, and what follows them. -/
def mantissaDigits (isDigit : UInt8 → Bool) (t : Text) : Text × Text × Text :=
  let whole := t.takeWhile isDigit
  match t.dropWhile isDigit with
  | [] => (whole, [], [])
  | b :: rest =>
    if b = byte '.' then (whole, rest.takeWhile isDigit, rest.dropWhile isDigit)
    else (whole, [], b :: rest)

/-- Whether a text is an unsigned decimal floating-point literal.  Underscores
may separate digits. -/
def isDecimalFloat (t : Text) : Bool :=
  if underscoresSeparate isDigit false t then
    let (whole, fraction, rest) := mantissaDigits isDigit (withoutUnderscores t)
    let exponent := match rest with
      | [] => some 0
      | b :: exponent =>
        if Text.lowerByte b = byte 'e' then exponent? exponent else none
    match natural? (whole ++ fraction), exponent with
    | some mantissa, some e => isFinite 10 mantissa (e - fraction.length)
    | _, _ => false
  else false

/-- Whether the text after `0x` makes a hexadecimal floating-point literal,
which needs a binary exponent.  Underscores may separate digits. -/
def isHexFloat (t : Text) : Bool :=
  if underscoresSeparate isHexDigit true t then
    let (whole, fraction, rest) :=
      mantissaDigits isHexDigit (withoutUnderscores t)
    let exponent := match rest with
      | [] => none
      | b :: exponent =>
        if Text.lowerByte b = byte 'p' then exponent? exponent else none
    match (whole ++ fraction).isEmpty, inBase? 16 (whole ++ fraction),
      exponent with
    | false, some mantissa, some e =>
      isFinite 2 mantissa (e - 4 * fraction.length)
    | _, _, _ => false
  else false

/-- Whether a text is a floating-point literal within the range of doubles. -/
def isFloat (t : Text) : Bool :=
  let body := (signed t).2
  let lower := body.map Text.lowerByte
  if lower = text "inf" || lower = text "infinity" then true
  else if t.map Text.lowerByte = text "nan" then true
  else match baseLetter? body with
    | some (16, digits) => isHexFloat digits
    | _ => isDecimalFloat body

end Number
end Nullness
