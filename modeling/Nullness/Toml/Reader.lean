/-!
# Reading characters

A reader takes something off the front of a list of characters, or fails.
Nothing is said about why a file is rejected, so a failure carries nothing.
-/

namespace Nullness
namespace Toml

/-- Takes a value off the front of a list of characters. -/
abbrev Reader := StateT (List Char) Option

/-- The first character that is left. -/
def peek? : Reader (Option Char) := fun cs => some (cs.head?, cs)

/-- Takes the given characters if they come next, and says whether they do. -/
def accept (wanted : List Char) : Reader Bool := fun cs =>
  if wanted.isPrefixOf cs then some (true, cs.drop wanted.length)
  else some (false, cs)

/-- Takes the given character, which has to come next. -/
def expect (wanted : Char) : Reader Unit := do
  if ← accept [wanted] then return () else failure

/-- Takes characters as long as they satisfy `p`. -/
def takeRun (p : Char → Bool) : Reader (List Char) := fun cs =>
  some (cs.takeWhile p, cs.dropWhile p)

/-- Whether a character separates words within a line. -/
def isBlank (c : Char) : Bool := c = ' ' || c = '\t'

/-- Whether a character belongs to the end of a line. -/
def isNewline (c : Char) : Bool := c = '\n' || c = '\r'

/-- Skips blanks. -/
def skipBlanks : Reader Unit := fun cs => some ((), cs.dropWhile isBlank)

/-- What is left after blanks, ends of lines and comments. -/
def dropFiller : (inComment : Bool) → List Char → List Char
  | _, [] => []
  | true, c :: cs => dropFiller (!isNewline c) cs
  | false, c :: cs =>
    if c = '#' then dropFiller true cs
    else if isBlank c || isNewline c then dropFiller false cs
    else c :: cs

/-- Skips blanks, ends of lines and comments. -/
def skipFiller : Reader Unit := fun cs => some ((), dropFiller false cs)

end Toml
end Nullness
