import Nullness.Text.Basic

/-!
# Reading bytes as UTF-8

`Text.symbols` reads text character by character.  A byte that starts no valid
character is a symbol of its own, so that every text can be read and no byte is
lost.
-/

namespace Nullness
namespace Text

/-- Whether a byte can continue a character of several bytes. -/
def isTail (b : UInt8) : Bool :=
  0x80 ≤ b && b ≤ 0xBF

/-- The payload of a continuation byte. -/
def tailBits (b : UInt8) : Nat := b.toNat % 0x40

/-- The character with the given code, if the code is at least `least`, the
smallest that needs as many bytes, and is the code of a character. -/
def charOfCode? (least code : Nat) : Option Char :=
  if h : code.isValidChar then
    if least ≤ code then some (Char.ofNatAux code h) else none
  else none

/-- The character that a leading byte and the bytes after it form, and the
number of bytes after the leading one that belong to it. -/
def leadingChar? (b : UInt8) (rest : Text) : Option (Char × Nat) :=
  if b < 0x80 then
    (charOfCode? 0 b.toNat).map (·, 0)
  else if b < 0xC0 then none
  else if b < 0xE0 then
    match rest with
    | b₁ :: _ =>
      if isTail b₁ then
        (charOfCode? 0x80 ((b.toNat - 0xC0) * 0x40 + tailBits b₁)).map (·, 1)
      else none
    | _ => none
  else if b < 0xF0 then
    match rest with
    | b₁ :: b₂ :: _ =>
      if isTail b₁ && isTail b₂ then
        (charOfCode? 0x800 ((b.toNat - 0xE0) * 0x1000
          + tailBits b₁ * 0x40 + tailBits b₂)).map (·, 2)
      else none
    | _ => none
  else if b < 0xF8 then
    match rest with
    | b₁ :: b₂ :: b₃ :: _ =>
      if isTail b₁ && isTail b₂ && isTail b₃ then
        (charOfCode? 0x10000 ((b.toNat - 0xF0) * 0x40000
          + tailBits b₁ * 0x1000 + tailBits b₂ * 0x40 + tailBits b₃)).map (·, 3)
      else none
    | _ => none
  else none

/-- One step of reading text: a character, or a byte that starts none. -/
inductive Symbol where
  | char (c : Char)
  | stray (b : UInt8)
  deriving DecidableEq, Repr

/-- The symbols of a text, after passing over `skip` bytes that belong to a
character already read. -/
def symbolsFrom : (skip : Nat) → Text → List Symbol
  | _, [] => []
  | skip + 1, _ :: rest => symbolsFrom skip rest
  | 0, b :: rest =>
    match leadingChar? b rest with
    | some (c, tails) => .char c :: symbolsFrom tails rest
    | none => .stray b :: symbolsFrom 0 rest

/-- The characters and stray bytes of a text, in order. -/
def symbols (t : Text) : List Symbol := symbolsFrom 0 t

/-- The characters of a text, if it holds no stray byte. -/
def chars? (t : Text) : Option (List Char) :=
  (symbols t).mapM fun
    | .char c => some c
    | .stray _ => none

/-- The UTF-8 bytes of a list of characters. -/
def ofChars (cs : List Char) : Text :=
  cs.flatMap String.utf8EncodeChar

/-- The text as a string, with the replacement character for each stray
byte. -/
def decode (t : Text) : String :=
  String.ofList ((symbols t).map fun
    | .char c => c
    | .stray _ => '\uFFFD')

end Text
end Nullness
