import Nullness.Number.Literal
import Nullness.Text.Utf8
import Nullness.Toml.Reader

/-!
# Numbers and dates

The program uses no number and no date, but a file that holds a malformed one
is rejected.  A number or a date is first cut off by the characters it may be
made of and then checked.
-/

namespace Nullness
namespace Toml

/-- Whether a character is a decimal digit. -/
def isDigit (c : Char) : Bool := '0' ≤ c && c ≤ '9'

/-- Whether a character may stand in a decimal number. -/
def isNumberChar (c : Char) : Bool :=
  isDigit c || c = '_' || c = '.' || c = '-' || c = '+' || c = 'e' || c = 'E'

/-- Whether a character may stand in a date or a time. -/
def isDateChar (c : Char) : Bool :=
  isDigit c || c = '-' || c = ':' || c = 'T' || c = 't' || c = ' '
    || c = '.' || c = 'Z' || c = 'z' || c = '+'

/-- A number without its sign. -/
def withoutSign : List Char → List Char
  | '-' :: cs => cs
  | '+' :: cs => cs
  | cs => cs

/-- Whether a number starts with a zero that another digit follows. -/
def hasLeadingZero (cs : List Char) : Bool :=
  match withoutSign cs with
  | '0' :: c :: _ => isDigit c || c = '_'
  | _ => false

/-- Whether a digit follows every point. -/
def digitsAfterPoints : List Char → Bool
  | [] => true
  | c :: cs =>
    (c ≠ '.' || (cs.head?.map isDigit).getD false) && digitsAfterPoints cs

/-- Whether the characters make a decimal number. -/
def isDecimal (cs : List Char) : Bool :=
  let startsWithDigit := ((withoutSign cs).head?.map isDigit).getD false
  let isFloat := cs.any fun c => c = '.' || c = 'e' || c = 'E'
  startsWithDigit && !hasLeadingZero cs && digitsAfterPoints cs
    && if isFloat then Number.isFloat (Text.ofChars cs)
      else Number.isInteger (Text.ofChars cs)

/-- The bases that a prefix can name, with their digits. -/
def bases : List (Char × (Char → Bool)) :=
  [('b', fun c => c = '0' || c = '1'),
    ('o', fun c => '0' ≤ c && c ≤ '7'),
    ('x', fun c => isDigit c || ('a' ≤ c && c ≤ 'f') || ('A' ≤ c && c ≤ 'F'))]

/-- Whether the characters make a number in the base that its prefix names, once
the digits are known to be digits of that base. -/
def isPrefixed (letter : Char) (digits : List Char) : Bool :=
  digits.head? ≠ some '_'
    && Number.isInteger (Text.ofChars ('0' :: letter :: digits))

/-- The number that decimal digits write. -/
def digitsValue (cs : List Char) : Nat :=
  cs.foldl (fun n c => 10 * n + (c.toNat - 48)) 0

/-- The number that two digits write, if it lies in the given range. -/
def twoDigits? (low high : Nat) (a b : Char) : Option Nat :=
  let n := digitsValue [a, b]
  if isDigit a && isDigit b && low ≤ n && n ≤ high then some n else none

/-- The number of days of a month. -/
def daysOfMonth (year month : Nat) : Nat :=
  if month = 2 then
    if year % 4 = 0 && (year % 100 ≠ 0 || year % 400 = 0) then 29 else 28
  else if month = 4 || month = 6 || month = 9 || month = 11 then 30
  else 31

/-- What follows a date at the start. -/
def date? : List Char → Option (List Char)
  | y₁ :: y₂ :: y₃ :: y₄ :: '-' :: m₁ :: m₂ :: '-' :: d₁ :: d₂ :: rest => do
    if !([y₁, y₂, y₃, y₄].all isDigit) then failure
    let month ← twoDigits? 1 12 m₁ m₂
    let year := digitsValue [y₁, y₂, y₃, y₄]
    let _ ← twoDigits? 1 (daysOfMonth year month) d₁ d₂
    return rest
  | _ => none

/-- What follows the hour and minute of a time at the start, and its second and
fraction of a second if they are there. -/
def time? : List Char → Option (List Char)
  | h₁ :: h₂ :: ':' :: m₁ :: m₂ :: rest => do
    let _ ← twoDigits? 0 23 h₁ h₂
    let _ ← twoDigits? 0 59 m₁ m₂
    match rest with
    | ':' :: s₁ :: s₂ :: rest =>
      let _ ← twoDigits? 0 59 s₁ s₂
      match rest with
      | '.' :: c :: rest =>
        if isDigit c then return rest.dropWhile isDigit else failure
      | _ => return rest
    | _ => return rest
  | _ => none

/-- Whether the characters make the distance of a local time from the universal
one. -/
def isOffset : List Char → Bool
  | ['Z'] | ['z'] => true
  | [sign, h₁, h₂, ':', m₁, m₂] =>
    (sign = '+' || sign = '-') && (twoDigits? 0 24 h₁ h₂).isSome
      && (twoDigits? 0 60 m₁ m₂).isSome
  | _ => false

/-- Whether the characters make a date, a time, or a date and a time with or
without an offset. -/
def isMoment (cs : List Char) : Bool :=
  match date? cs with
  | none => time? cs = some []
  | some [] => true
  | some (sep :: rest) =>
    (sep = 'T' || sep = 't' || sep = ' ')
      && match time? rest with
        | none => false
        | some offset => offset.isEmpty || isOffset offset

/-- Refuses what has not been checked. -/
def require (checked : Bool) : Reader Unit :=
  if checked then return () else failure

/-- Reads a number or a date that starts with a digit or a sign. -/
def scalar : Reader Unit := fun cs =>
  let digits := cs.takeWhile isDigit
  let after := (cs.dropWhile isDigit).head?
  match cs with
  | '0' :: letter :: rest =>
    match bases.lookup letter with
    | some isDigit => prefixed letter isDigit rest
    | none => plain digits after cs
  | _ => plain digits after cs
where
  /-- Reads the digits after the prefix of a base. -/
  prefixed (letter : Char) (isDigit : Char → Bool) : Reader Unit := do
    let digits ← takeRun fun c => isDigit c || c = '_'
    require (isPrefixed letter digits)
  /-- Reads a decimal number, or a date if digits are followed by what follows
  them in a date. -/
  plain (digits : List Char) (after : Option Char) : Reader Unit := do
    if !digits.isEmpty && (after = some '-' || after = some ':') then
      let moment ← takeRun isDateChar
      require (isMoment (moment.reverse.dropWhile isBlank).reverse)
    else
      let number ← takeRun isNumberChar
      require (isDecimal number)

end Toml
end Nullness
