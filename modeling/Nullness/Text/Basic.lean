/-!
# Text as bytes

Class names, descriptors and source files are sequences of bytes.  They are
usually UTF-8, but nothing here relies on it: a byte that belongs to no
character is carried along unchanged and only shows when text is quoted or
turned into a string.

The operations are the ones the rest of the library needs to take text apart:
splitting at a byte, cutting at the first or last occurrence of one, and
joining.
-/

namespace Nullness

/-- Text as it is read and written: any sequence of bytes. -/
abbrev Text := List UInt8

/-- The UTF-8 bytes of a string. -/
def text (s : String) : Text :=
  s.toList.flatMap String.utf8EncodeChar

/-- The byte of an ASCII character. -/
def byte (c : Char) : UInt8 := c.toUInt8

namespace Text

/-- The decimal digits of a natural number. -/
def ofNat (n : Nat) : Text :=
  (Nat.toDigits 10 n).map byte

/-- An integer in decimal, with a minus sign if it is negative. -/
def ofInt : Int → Text
  | .ofNat n => ofNat n
  | .negSucc n => byte '-' :: ofNat (n + 1)

/-- Splits text at every occurrence of a byte; the pieces do not contain it. -/
def splitOn (sep : UInt8) (t : Text) : List Text :=
  t.foldr
    (fun b pieces =>
      if b = sep then [] :: pieces
      else match pieces with
        | [] => [[b]]
        | piece :: rest => (b :: piece) :: rest)
    [[]]

/-- The parts before and after the first byte that satisfies `p`, which itself
belongs to neither part. -/
def cutAt (p : UInt8 → Bool) : Text → Option (Text × Text)
  | [] => none
  | b :: rest =>
    if p b then some ([], rest)
    else (cutAt p rest).map fun (before, after) => (b :: before, after)

/-- The parts before and after the first occurrence of a byte. -/
def cut (sep : UInt8) (t : Text) : Option (Text × Text) :=
  cutAt (· == sep) t

/-- The parts before and after the last byte that satisfies `p`. -/
def cutLastAt (p : UInt8 → Bool) (t : Text) : Option (Text × Text) :=
  (cutAt p t.reverse).map fun (after, before) =>
    (before.reverse, after.reverse)

/-- Joins pieces of text with a separator between neighbours. -/
def join (sep : Text) : List Text → Text
  | [] => []
  | [piece] => piece
  | piece :: rest => piece ++ sep ++ join sep rest

/-- The text without its first part, if it starts with that part. -/
def dropStart? : Text → Text → Option Text
  | [], t => some t
  | _ :: _, [] => none
  | a :: start, b :: t => if a = b then dropStart? start t else none

/-- Whether the text ends with the given part. -/
def endsWith (ending t : Text) : Bool :=
  (dropStart? ending.reverse t.reverse).isSome

/-- Pads text on the right with spaces up to a width. -/
def padRight (width : Nat) (t : Text) : Text :=
  t ++ List.replicate (width - t.length) (byte ' ')

/-- Pads text on the left with zeros up to a width. -/
def padZeros (width : Nat) (t : Text) : Text :=
  List.replicate (width - t.length) (byte '0') ++ t

end Text
end Nullness
