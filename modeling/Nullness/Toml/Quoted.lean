import Nullness.Text.Utf8
import Nullness.Toml.Reader

/-!
# Strings

Strings stand between double quotes, where a backslash starts an escape
sequence, or between single quotes, where every character stands for itself.
Between three quotes of either kind they may span lines; a line end just after
the opening quotes is no part of the string.

A string is first cut off at its closing quotes, and then its escape sequences
are replaced.
-/

namespace Nullness
namespace Toml

/-- What stands before the closing quote of a string of one line, and what
follows it.  With `escapes`, a character after a backslash closes nothing;
`escaped` says that such a character comes next. -/
def shortBody (quote : Char) (escapes : Bool) :
    (escaped : Bool) → List Char → Option (List Char × List Char)
  | _, [] => none
  | escaped, c :: cs =>
    if isNewline c then none
    else if c = quote && !escaped then some ([], cs)
    else
      (shortBody quote escapes (escapes && c = '\\' && !escaped) cs).map
        fun (body, rest) => (c :: body, rest)

/-- What stands before the three closing quotes of a string of many lines, and
what follows them.  Of a run of quotes the last three close the string, so a run
may be longer than that: by two quotes, or by three right after an escaped
backslash.  `run` counts the quotes just before, and `most` is the length that
the run may have. -/
def longBody (quote : Char) (escapes : Bool) :
    (escaped : Bool) → (run most : Nat) → List Char →
    Option (List Char × List Char)
  | _, _, _, [] => none
  | escaped, run, most, c :: cs =>
    if c = quote && !escaped then
      if cs.head? = some quote
        then longBody quote escapes false (run + 1) most cs
      else if run < 2 then
        (longBody quote escapes false 0 5 cs).map
          fun (body, rest) => (List.replicate (run + 1) quote ++ body, rest)
      else if run < most then some (List.replicate (run - 2) quote, cs)
      else none
    else
      let starts := escapes && c = '\\' && !escaped
      let most := if escaped && c = '\\' then 6 else 5
      (longBody quote escapes starts 0 most cs).map
        fun (body, rest) => (c :: body, rest)

/-- A string without the line end at its start. -/
def dropFirstNewline : List Char → List Char
  | '\n' :: cs => cs
  | '\r' :: '\n' :: cs => cs
  | cs => cs

/-- The characters written by a backslash and a letter. -/
def letterEscapes : List (Char × Char) :=
  [('b', '\x08'), ('t', '\t'), ('n', '\n'), ('f', '\x0c'), ('r', '\r'),
    ('e', '\x1b'), ('"', '"'), ('\\', '\\')]

/-- How many hexadecimal digits follow a backslash and the letter. -/
def codeLengths : List (Char × Nat) := [('x', 2), ('u', 4), ('U', 8)]

/-- The value of a hexadecimal digit. -/
def hexValue? (c : Char) : Option Nat :=
  if '0' ≤ c && c ≤ '9' then some (c.toNat - 48)
  else if 'a' ≤ c && c ≤ 'f' then some (c.toNat - 87)
  else if 'A' ≤ c && c ≤ 'F' then some (c.toNat - 55)
  else none

/-- The character with a code, if the code belongs to one. -/
def charOfCode? (code : Nat) : Option Char :=
  if code.isValidChar then some (Char.ofNat code) else none

/-- Where in a string its escape sequences are looked for. -/
inductive EscapeState where
  /-- Outside of escape sequences. -/
  | plain
  /-- After a backslash. -/
  | mark
  /-- Before that many more digits of a character's code. -/
  | code (left value : Nat)
  /-- In white space after a backslash, which has to hold the end of a line. -/
  | gap (newline : Bool)

/-- Whether a character is skipped after a backslash at the end of a line. -/
def isSpace (c : Char) : Bool := isBlank c || isNewline c

/-- A string with its escape sequences replaced.  With `gaps`, a backslash at
the end of a line removes the white space that follows it. -/
def unescape (gaps : Bool) : EscapeState → List Char → Option (List Char)
  | .plain, [] | .gap true, [] => some []
  | _, [] => none
  | .plain, c :: cs =>
    if c = '\\' then unescape gaps .mark cs
    else (unescape gaps .plain cs).map (c :: ·)
  | .mark, c :: cs =>
    if gaps && isSpace c then unescape gaps (.gap (c = '\n')) cs
    else match letterEscapes.lookup c, codeLengths.lookup c with
      | some d, _ => (unescape gaps .plain cs).map (d :: ·)
      | none, some length => unescape gaps (.code length 0) cs
      | none, none => none
  | .code left value, c :: cs =>
    match hexValue? c with
    | none => none
    | some digit =>
      let value := 16 * value + digit
      if left ≤ 1 then
        match charOfCode? value with
        | some d => (unescape gaps .plain cs).map (d :: ·)
        | none => none
      else unescape gaps (.code (left - 1) value) cs
  | .gap newline, c :: cs =>
    if isSpace c then unescape gaps (.gap (newline || c = '\n')) cs
    else if !newline then none
    else if c = '\\' then unescape gaps .mark cs
    else (unescape gaps .plain cs).map (c :: ·)

/-- Reads the rest of a string of one line, after its opening quote. -/
def shortString (quote : Char) : Reader Text := fun cs => do
  let escapes := quote = '"'
  let (body, rest) ← shortBody quote escapes false cs
  let s ← if escapes then unescape false .plain body else some body
  return (Text.ofChars s, rest)

/-- Reads the rest of a string of many lines, after its opening quotes. -/
def longString (quote : Char) : Reader Text := fun cs => do
  let escapes := quote = '"'
  let (body, rest) ← longBody quote escapes false 0 5 cs
  let body := dropFirstNewline body
  let s ← if escapes then unescape true .plain body else some body
  return (Text.ofChars s, rest)

end Toml
end Nullness
