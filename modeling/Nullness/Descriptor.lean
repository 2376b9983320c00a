import Nullness.Text.Quoted

/-!
# Type descriptors

A descriptor is the text form of the type of a field or of a method.  A field
type is a letter for a primitive type, a class name between `L` and `;`, or an
array of a field type after `[`.  A method descriptor lists the parameter types
between parentheses and then gives the result type, which may be void.

Class names may hold any byte other than `;`, so a descriptor is read from left
to right and never split at its punctuation.
-/

namespace Nullness
namespace Descriptor

/-- The kinds of types that a descriptor can name. -/
inductive Kind where
  | void | boolean | char | byte | short | int | float | long | double
  | array | object
  deriving DecidableEq, Repr

/-- The number of a kind, in the order of its declaration. -/
def Kind.code : Kind → Nat
  | .void => 0
  | .boolean => 1
  | .char => 2
  | .byte => 3
  | .short => 4
  | .int => 5
  | .float => 6
  | .long => 7
  | .double => 8
  | .array => 9
  | .object => 10

/-- The number of slots that a value of the kind takes. -/
def Kind.size : Kind → UInt8
  | .void => 0
  | .long | .double => 2
  | _ => 1

/-- Whether values of the kind are references. -/
def Kind.isReference : Kind → Bool
  | .array | .object => true
  | _ => false

/-- The kind that a single letter names. -/
def Kind.ofLetter? (b : UInt8) : Option Kind :=
  if b = Nullness.byte 'V' then some .void
  else if b = Nullness.byte 'Z' then some .boolean
  else if b = Nullness.byte 'C' then some .char
  else if b = Nullness.byte 'B' then some .byte
  else if b = Nullness.byte 'S' then some .short
  else if b = Nullness.byte 'I' then some .int
  else if b = Nullness.byte 'F' then some .float
  else if b = Nullness.byte 'J' then some .long
  else if b = Nullness.byte 'D' then some .double
  else none

/-- A type together with its descriptor. -/
structure FieldType where
  kind : Kind
  desc : Text
  deriving DecidableEq, Repr

namespace FieldType

/-- The number of slots that a value of the type takes. -/
def size (t : FieldType) : UInt8 := t.kind.size

/-- Whether values of the type are references. -/
def isReference (t : FieldType) : Bool := t.kind.isReference

end FieldType

/-- The types of a method: its parameters, in order, and its result. -/
structure MethodType where
  args : List FieldType
  result : FieldType
  deriving DecidableEq, Repr

namespace MethodType

/-- The number of slots that the arguments of a method take. -/
def argSlots (t : MethodType) : Nat :=
  t.args.foldr (fun a slots => a.size.toNat + slots) 0

end MethodType

/-- Why a text is no descriptor.  Every constructor holds the whole text. -/
inductive Error where
  /-- The text ends where a type should start. -/
  | unexpectedEnd (desc : Text)
  /-- A class name is empty or has no end. -/
  | unterminatedClass (desc : Text)
  /-- The elements of an array are void. -/
  | voidElement (desc : Text)
  /-- A byte starts no type. -/
  | unexpectedByte (found : UInt8) (offset : Nat) (desc : Text)
  /-- A field type is void or followed by something. -/
  | notFieldType (desc : Text)
  /-- A method descriptor starts with no parenthesis. -/
  | noParameters (desc : Text)
  /-- The parameter list of a method has no end. -/
  | openParameters (desc : Text)
  /-- A parameter of a method is void. -/
  | voidParameter (desc : Text)
  /-- The result type of a method is followed by something. -/
  | trailing (desc : Text)
  deriving DecidableEq, Repr

/-- The message of a text that is no descriptor. -/
def Error.message (e : Error) : Text :=
  text "malformed descriptor: " ++ match e with
  | .unexpectedEnd desc => text "unexpected end of " ++ Text.quote desc
  | .unterminatedClass desc =>
    text "unterminated class type in " ++ Text.quote desc
  | .voidElement desc => text "void array element in " ++ Text.quote desc
  | .unexpectedByte found offset desc =>
    text "unexpected " ++ Text.quoteByte found ++ text " at offset "
      ++ Text.ofNat offset ++ text " of " ++ Text.quote desc
  | .notFieldType desc => text "field descriptor " ++ Text.quote desc
  | .noParameters desc =>
    text "method descriptor " ++ Text.quote desc ++ text " must start with '('"
  | .openParameters desc =>
    text "method descriptor " ++ Text.quote desc ++ text " has no ')'"
  | .voidParameter desc => text "void parameter in " ++ Text.quote desc
  | .trailing desc => text "trailing characters in " ++ Text.quote desc

/-- Reads one type, possibly void, from the front of `t`, and returns it with
the text after it.  The text `t` is the end of the descriptor `desc`, which
errors refer to. -/
def readType (desc : Text) : (t : Text) → Except Error (FieldType × Text)
  | [] => .error (.unexpectedEnd desc)
  | b :: rest =>
    match Kind.ofLetter? b with
    | some kind => .ok (⟨kind, [b]⟩, rest)
    | none =>
      if b = Nullness.byte 'L' then
        match Text.cut (Nullness.byte ';') rest with
        | some (name, after) =>
          if name.isEmpty then .error (.unterminatedClass desc)
          else .ok (⟨.object, b :: name ++ [Nullness.byte ';']⟩, after)
        | none => .error (.unterminatedClass desc)
      else if b = Nullness.byte '[' then
        match readType desc rest with
        | .error e => .error e
        | .ok (element, after) =>
          if element.kind = .void then .error (.voidElement desc)
          else .ok (⟨.array, b :: element.desc⟩, after)
      else
        .error (.unexpectedByte b (desc.length - (b :: rest).length) desc)

/-- Reads a text that is a field type as a whole. -/
def parseFieldType (desc : Text) : Except Error FieldType :=
  match readType desc desc with
  | .error e => .error e
  | .ok (t, after) =>
    if t.kind = .void ∨ after ≠ [] then .error (.notFieldType desc)
    else .ok t

/-- What follows the first occurrence of a byte is shorter than the text. -/
theorem length_lt_of_cutAt {p : UInt8 → Bool} {t before after : Text}
    (h : Text.cutAt p t = some (before, after)) :
    after.length < t.length := by
  induction t generalizing before with
  | nil => simp [Text.cutAt] at h
  | cons b rest ih =>
    rw [Text.cutAt] at h
    split at h
    · cases h
      simp
    · cases hrest : Text.cutAt p rest with
      | none => simp [hrest] at h
      | some parts =>
        obtain ⟨before', after'⟩ := parts
        simp only [hrest, Option.map_some, Option.some.injEq,
          Prod.mk.injEq] at h
        obtain ⟨-, rfl⟩ := h
        have := ih hrest
        simp only [List.length_cons]
        omega

/-- Reading a type uses up at least one byte. -/
theorem length_lt_of_readType {desc t : Text} {ty : FieldType} {after : Text}
    (h : readType desc t = .ok (ty, after)) :
    after.length < t.length := by
  induction t generalizing ty with
  | nil => simp [readType] at h
  | cons b rest ih =>
    rw [readType] at h
    split at h
    · cases h
      simp
    · split at h
      · split at h
        · rename_i hcut
          split at h
          · cases h
          · cases h
            have := length_lt_of_cutAt hcut
            simp only [List.length_cons]
            omega
        · cases h
      · split at h
        · split at h
          · cases h
          · rename_i hread
            split at h
            · cases h
            · cases h
              have := ih hread
              simp only [List.length_cons]
              omega
        · cases h

/-- Reads parameter types up to the closing parenthesis, and returns them with
the text after it. -/
def readArgs (desc : Text) (t : Text) :
    Except Error (List FieldType × Text) :=
  match t with
  | [] => .error (.openParameters desc)
  | b :: rest =>
    if b = Nullness.byte ')' then .ok ([], rest)
    else match _h : readType desc (b :: rest) with
      | .error e => .error e
      | .ok (arg, after) =>
        if arg.kind = .void then .error (.voidParameter desc)
        else match readArgs desc after with
          | .error e => .error e
          | .ok (args, after') => .ok (arg :: args, after')
termination_by t.length
decreasing_by exact length_lt_of_readType _h

/-- Reads a text that is a method descriptor as a whole. -/
def parseMethodType (desc : Text) : Except Error MethodType :=
  match desc with
  | [] => .error (.noParameters desc)
  | b :: rest =>
    if b ≠ Nullness.byte '(' then .error (.noParameters desc)
    else match readArgs desc rest with
      | .error e => .error e
      | .ok (args, after) =>
        match readType desc after with
        | .error e => .error e
        | .ok (result, after') =>
          if after' ≠ [] then .error (.trailing desc)
          else .ok ⟨args, result⟩

end Descriptor
end Nullness
