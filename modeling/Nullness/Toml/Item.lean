import Nullness.Toml.Quoted
import Nullness.Toml.Scalar
import Nullness.Toml.Value

/-!
# The items of a configuration file

A file is a list of items, each on a line of its own: the header of a table, or
a key with its value.  Arrays and tables between braces may hold ends of lines
and comments.

Values nest, so they are read with fuel.  Every step but the one from an array
to its element takes a character, and thus fuel of twice the length of the file
never runs out.
-/

namespace Nullness
namespace Toml

/-- Reads one part of a key. -/
def keyPart : Reader Text := do
  if ← accept ['"'] then shortString '"'
  else if ← accept ['\''] then shortString '\''
  else
    let part ← takeRun fun c => c.toNat < 128 && isBareByte (byte c)
    require (!part.isEmpty)
    return Text.ofChars part

/-- Reads a key: parts with points and blanks between them. -/
def readKey : (fuel : Nat) → Reader Key
  | 0 => failure
  | fuel + 1 => do
    skipBlanks
    let part ← keyPart
    skipBlanks
    if ← accept ['.'] then
      let rest ← readKey fuel
      return part :: rest
    else return [part]

/-- The words that are values. -/
def word? : Reader (Option Value) := do
  if ← accept "true".toList then return some (.bool true)
  else if ← accept "false".toList then return some (.bool false)
  else if ← accept "inf".toList then return some .other
  else if ← accept "nan".toList then return some .other
  else if ← accept "+inf".toList then return some .other
  else if ← accept "+nan".toList then return some .other
  else if ← accept "-inf".toList then return some .other
  else if ← accept "-nan".toList then return some .other
  else return none

mutual

/-- Reads a value. -/
def readValue : (fuel : Nat) → Reader Value
  | 0 => failure
  | fuel + 1 => do
    skipBlanks
    if ← accept ['['] then
      let elements ← readElements fuel
      return .array elements
    else if ← accept ['\x7b'] then
      let pairs ← readPairs fuel
      return .table pairs
    else if ← accept ['"', '"', '"'] then
      let s ← longString '"'
      return .string s
    else if ← accept ['\'', '\'', '\''] then
      let s ← longString '\''
      return .string s
    else if ← accept ['"'] then
      let s ← shortString '"'
      return .string s
    else if ← accept ['\''] then
      let s ← shortString '\''
      return .string s
    else match ← word? with
      | some v => return v
      | none =>
        scalar
        return .other

/-- Reads the rest of an array. -/
def readElements : (fuel : Nat) → Reader (List Value)
  | 0 => failure
  | fuel + 1 => do
    skipFiller
    if ← accept [']'] then return []
    let v ← readValue fuel
    skipFiller
    if ← accept [','] then
      let rest ← readElements fuel
      return v :: rest
    expect ']'
    return [v]

/-- Reads the rest of a table between braces. -/
def readPairs : (fuel : Nat) → Reader (List (Key × Value))
  | 0 => failure
  | fuel + 1 => do
    skipFiller
    if ← accept ['\x7d'] then return []
    let key ← readKey fuel
    expect '='
    let v ← readValue fuel
    skipFiller
    if ← accept [','] then
      let rest ← readPairs fuel
      return (key, v) :: rest
    expect '\x7d'
    return [(key, v)]

end

/-- Reads one item. -/
def readItem (fuel : Nat) : Reader Item := do
  if ← accept ['[', '['] then
    let key ← readKey fuel
    expect ']'
    expect ']'
    return .element key
  else if ← accept ['['] then
    let key ← readKey fuel
    expect ']'
    return .table key
  else
    let key ← readKey fuel
    expect '='
    let v ← readValue fuel
    return .pair key v

/-- Nothing but a comment may follow an item on its line. -/
def endItem : Reader Unit := do
  skipBlanks
  match ← peek? with
  | none => return ()
  | some c => require (isNewline c || c = '#')

/-- Reads the items up to the end of the file. -/
def readItems : (fuel : Nat) → Reader (List Item)
  | 0 => failure
  | fuel + 1 => do
    skipFiller
    match ← peek? with
    | none => return []
    | some _ =>
      let item ← readItem fuel
      endItem
      let rest ← readItems fuel
      return item :: rest

/-- Whether a file holds no control characters but tabs and ends of lines, with
no carriage return by itself. -/
def controlsAllowed : List Char → Bool
  | [] => true
  | c :: cs =>
    (if c = '\r' then cs.head? = some '\n'
      else c = '\t' || c = '\n' || (0x20 ≤ c.toNat && c.toNat ≠ 0x7f))
    && controlsAllowed cs

/-- A text without the mark that says how it is encoded. -/
def withoutMark : Text → Text
  | 0xff :: 0xfe :: t => t
  | 0xfe :: 0xff :: t => t
  | 0xef :: 0xbb :: 0xbf :: t => t
  | t => t

/-- The items of a file, if it is well formed. -/
def items? (file : Text) : Option (List Item) := do
  let cs ← Text.chars? (withoutMark file)
  if controlsAllowed cs then
    let (items, _) ← (readItems (2 * cs.length + 4)).run cs
    return items
  else none

end Toml
end Nullness
