import Nullness.Text.Printable
import Nullness.Text.Utf8

/-!
# Quoted text

Messages show pieces of source between double quotes.  Printable characters
stand for themselves; every other character, and every byte that belongs to no
character, is written as an escape sequence.
-/

namespace Nullness
namespace Text

/-- The lower-case hexadecimal digit of a number below sixteen. -/
def hexDigit (n : Nat) : UInt8 := byte (Nat.digitChar n)

/-- The last `width` hexadecimal digits of a number. -/
def hex : (width : Nat) → Nat → Text
  | 0, _ => []
  | width + 1, n => hex width (n / 16) ++ [hexDigit (n % 16)]

/-- The letter that stands for a control character after a backslash. -/
def controlLetter? (c : Char) : Option Char :=
  match c.toNat with
  | 0x07 => some 'a'
  | 0x08 => some 'b'
  | 0x09 => some 't'
  | 0x0A => some 'n'
  | 0x0B => some 'v'
  | 0x0C => some 'f'
  | 0x0D => some 'r'
  | _ => none

/-- A character inside quotes of the kind `mark`. -/
def quoteChar (mark c : Char) : Text :=
  if c == mark || c == '\\' then [byte '\\', byte c]
  else if isPrintable c then ofChars [c]
  else match controlLetter? c with
    | some letter => [byte '\\', byte letter]
    | none =>
      if c.toNat < 0x80 then text "\\x" ++ hex 2 c.toNat
      else if c.toNat < 0x10000 then text "\\u" ++ hex 4 c.toNat
      else text "\\U" ++ hex 8 c.toNat

/-- One symbol of text inside double quotes. -/
def quoteSymbol : Symbol → Text
  | .char c => quoteChar '"' c
  | .stray b => text "\\x" ++ hex 2 b.toNat

/-- Text between double quotes. -/
def quote (t : Text) : Text :=
  byte '"' :: (symbols t).flatMap quoteSymbol ++ [byte '"']

/-- A single byte, taken as the character with that code, between single
quotes. -/
def quoteByte (b : UInt8) : Text :=
  byte '\'' :: quoteChar '\'' (Char.ofNat b.toNat) ++ [byte '\'']

end Text
end Nullness
