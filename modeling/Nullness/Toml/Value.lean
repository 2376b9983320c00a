import Nullness.Text.Quoted

/-!
# Configuration values and keys

A configuration file is written in TOML.  Only truth values and strings matter
to the program, so other scalars are read and then forgotten.
-/

namespace Nullness
namespace Toml

/-- A key, as the list of its parts. -/
abbrev Key := List Text

/-- A value as it is written in a file. -/
inductive Value where
  | string (s : Text)
  | bool (b : Bool)
  /-- A number or a date. -/
  | other
  | array (elements : List Value)
  /-- A table between braces, as its pairs. -/
  | table (pairs : List (Key × Value))

/-- A top-level item of a file. -/
inductive Item where
  /-- The header of a table. -/
  | table (key : Key)
  /-- The header of an element of an array of tables. -/
  | element (key : Key)
  /-- A key and its value. -/
  | pair (key : Key) (value : Value)

/-- Whether a byte may stand in a key without quotes. -/
def isBareByte (b : UInt8) : Bool :=
  (byte 'A' ≤ b && b ≤ byte 'Z') || (byte 'a' ≤ b && b ≤ byte 'z')
    || (byte '0' ≤ b && b ≤ byte '9') || b = byte '_' || b = byte '-'

/-- The control characters with an escape of their own. -/
def shortEscapes : List (UInt8 × UInt8) :=
  [(8, byte 'b'), (9, byte 't'), (10, byte 'n'), (12, byte 'f'),
    (13, byte 'r'), (byte '"', byte '"'), (byte '\\', byte '\\')]

/-- A byte of a quoted key. -/
def escapeByte (b : UInt8) : Text :=
  match shortEscapes.lookup b with
  | some letter => [byte '\\', letter]
  | none =>
    if b < 0x20 || b = 0x7f then text "\\u" ++ Text.hex 4 b.toNat else [b]

/-- A part of a key as text, quoted where it has to be. -/
def renderPart (part : Text) : Text :=
  if !part.isEmpty && part.all isBareByte then part
  else byte '"' :: part.flatMap escapeByte ++ [byte '"']

/-- A key as text. -/
def Key.render (key : Key) : Text :=
  Text.join (text ".") (List.map renderPart key)

end Toml
end Nullness
