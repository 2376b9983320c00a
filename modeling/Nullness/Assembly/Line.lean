import Nullness.Text.Basic

/-!
# Source lines and their fields

A source text is read line by line, and a line as a list of fields separated by
blanks.  A double quote starts a quoted part, which may hold blanks and in which
a backslash protects the next byte; an unfinished quoted part ends with the
line.  A semicolon starts a comment only where a field would start, because
descriptors hold semicolons too.

Lines without fields are dropped, but keep their number.
-/

namespace Nullness
namespace Assembly

/-- Where in a line the reader is: outside quotes, inside quotes, or inside
quotes after a backslash. -/
inductive Quoting where
  | outside
  | inside
  | escaped
  deriving DecidableEq, Repr

/-- Whether a byte separates fields. -/
def isBlank (b : UInt8) : Bool :=
  b = byte ' ' || b = byte '\t' || b = byte '\r'

/-- A field from its bytes in reverse, if there are any. -/
def finishField (current : Text) : List Text :=
  if current.isEmpty then [] else [current.reverse]

/-- The fields of the rest of a line, when `current` holds the bytes of an
unfinished field in reverse. -/
def fieldsFrom : Quoting → (current : Text) → Text → List Text
  | _, current, [] => finishField current
  | .outside, current, b :: rest =>
    if b = byte '"' then fieldsFrom .inside (b :: current) rest
    else if b = byte ';' ∧ current.isEmpty then []
    else if isBlank b then finishField current ++ fieldsFrom .outside [] rest
    else fieldsFrom .outside (b :: current) rest
  | .inside, current, b :: rest =>
    if b = byte '\\' then fieldsFrom .escaped (b :: current) rest
    else if b = byte '"' then fieldsFrom .outside (b :: current) rest
    else fieldsFrom .inside (b :: current) rest
  | .escaped, current, b :: rest => fieldsFrom .inside (b :: current) rest

/-- The fields of a line, without its comment. -/
def fields (line : Text) : List Text := fieldsFrom .outside [] line

/-- A line that holds something: its number, counted from one, its first field
and the other fields. -/
structure Line where
  number : Nat
  head : Text
  args : List Text
  deriving DecidableEq, Repr

/-- The line with a number and a list of fields, if there are fields. -/
def Line.ofFields? (number : Nat) : List Text → Option Line
  | [] => none
  | head :: args => some ⟨number, head, args⟩

/-- The lines of a source text, separated by line feeds. -/
def sourceLines (source : Text) : List Text :=
  Text.splitOn (byte '\n') source

/-- The lines of a source text that hold something. -/
def readLines (source : Text) : List Line :=
  (sourceLines source).zipIdx.filterMap fun (line, index) =>
    Line.ofFields? (index + 1) (fields line)

end Assembly
end Nullness
