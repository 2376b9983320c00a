import Nullness.Descriptor
import Nullness.Proofs.Tokens

/-!
# The grammar of descriptors

A field type is the letter of a primitive type, a class name between `L` and
`;`, or an array of a field type.  `Spells` says so, and which kind of type a
text spells.  A method descriptor is made of the texts of its parameters and of
its result.

Reading a type from the front of a text takes exactly what the grammar allows
there, and leaves the rest of the text (`readType_eq_ok_iff`).  The rest is
arbitrary, so that the statement passes on to arrays, to lists of parameters and
to whole descriptors.
-/

namespace Nullness
namespace Descriptor

/-- The letters of the primitive types. -/
def primitives : List (UInt8 × Kind) :=
  [(byte 'Z', .boolean), (byte 'C', .char), (byte 'B', .byte),
    (byte 'S', .short), (byte 'I', .int), (byte 'F', .float),
    (byte 'J', .long), (byte 'D', .double)]

/-- A text is a field type of the given kind. -/
inductive Spells : Kind → Text → Prop
  | primitive {letter : UInt8} {kind : Kind} (h : (letter, kind) ∈ primitives) :
      Spells kind [letter]
  | object {name : Text} (hne : name ≠ []) (hname : byte ';' ∉ name) :
      Spells .object (byte 'L' :: (name ++ [byte ';']))
  | array {kind : Kind} {element : Text} (h : Spells kind element) :
      Spells .array (byte '[' :: element)

namespace FieldType

/-- The type of methods that return nothing. -/
def void : FieldType := ⟨.void, [byte 'V']⟩

/-- A type that a field or a parameter can have. -/
def IsField (t : FieldType) : Prop := Spells t.kind t.desc

/-- A type that a method can return. -/
def IsResult (t : FieldType) : Prop := t.IsField ∨ t = void

end FieldType

namespace MethodType

/-- The descriptor of a method. -/
def render (t : MethodType) : Text :=
  byte '(' :: (t.args.flatMap (·.desc) ++ byte ')' :: t.result.desc)

/-- The parameters are field types, and the result is a field type or void. -/
structure WellFormed (t : MethodType) : Prop where
  args : ∀ arg ∈ t.args, arg.IsField
  result : t.result.IsResult

end MethodType

variable {desc t after : Text} {ty : FieldType}

/-! ## One type -/

theorem Kind.ofLetter?_eq_some_iff {b : UInt8} {kind : Kind} :
    Kind.ofLetter? b = some kind ↔
      (b = Nullness.byte 'V' ∧ kind = .void) ∨ (b, kind) ∈ primitives := by
  constructor
  · intro h
    rw [Kind.ofLetter?] at h
    split_ifs at h with hb hb hb hb hb hb hb hb hb
    · exact .inl ⟨hb, (Option.some.inj h).symm⟩
    all_goals
      rw [hb, ← Option.some.inj h]
      exact .inr (by decide)
  · have hletters : ∀ entry ∈ primitives,
        Kind.ofLetter? entry.1 = some entry.2 := by decide
    rintro (⟨rfl, rfl⟩ | h)
    · rfl
    · exact hletters _ h

theorem Spells.kind_ne_void {kind : Kind} (h : Spells kind desc) :
    kind ≠ .void := by
  cases h with
  | primitive h =>
      have hkinds : ∀ entry ∈ primitives, entry.2 ≠ .void := by decide
      exact hkinds _ h
  | object hne hname => decide
  | array h => decide

/-- A result is a field type unless it is void. -/
theorem FieldType.IsResult.isField_iff (h : ty.IsResult) :
    ty.IsField ↔ ty.kind ≠ .void := by
  refine ⟨Spells.kind_ne_void, fun hkind => ?_⟩
  rcases h with h | rfl
  · exact h
  · exact absurd rfl hkind

/-- What is read is a type, and the text that is left comes after it. -/
theorem isResult_of_readType (h : readType desc t = .ok (ty, after)) :
    ty.IsResult ∧ t = ty.desc ++ after := by
  fun_induction readType desc t generalizing ty after with
  | case1 => cases h
  | case2 b rest kind hletter =>
      cases h
      rcases Kind.ofLetter?_eq_some_iff.mp hletter with ⟨rfl, rfl⟩ | hprimitive
      · exact ⟨.inr rfl, rfl⟩
      · exact ⟨.inl (.primitive hprimitive), rfl⟩
  | case3 => cases h
  | case4 rest name after' hcut hname _ =>
      cases h
      obtain ⟨rfl, hsep⟩ := Text.cut_eq_some_iff.mp hcut
      exact ⟨.inl (.object (by simpa using hname) hsep), by simp⟩
  | case5 => cases h
  | case6 => cases h
  | case7 => cases h
  | case8 rest element after' hread hkind _ _ ih =>
      cases h
      obtain ⟨hresult, rfl⟩ := ih hread
      exact ⟨.inl (.array (hresult.isField_iff.mpr hkind)), rfl⟩
  | case9 => cases h

/-- A field type is read from the front of every text that starts with it. -/
theorem Spells.readType_append {kind : Kind} {element : Text}
    (h : Spells kind element) (desc after : Text) :
    readType desc (element ++ after) = .ok (⟨kind, element⟩, after) := by
  have hclass : Kind.ofLetter? (byte 'L') = none := by decide
  have harray : Kind.ofLetter? (byte '[') = none := by decide
  induction h with
  | primitive h =>
      rw [List.singleton_append, readType,
        Kind.ofLetter?_eq_some_iff.mpr (.inr h)]
  | @object name hne hname =>
      have hcut : Text.cut (byte ';') (name ++ [byte ';'] ++ after) =
          some (name, after) :=
        Text.cut_eq_some_iff.mpr ⟨by simp, hname⟩
      rw [List.cons_append, readType, hclass]
      dsimp only
      rw [if_pos rfl, hcut]
      dsimp only
      rw [if_neg (by simpa using hne)]
      rfl
  | array h ih =>
      rw [List.cons_append, readType, harray]
      dsimp only
      rw [if_neg (by decide), if_pos rfl, ih]
      dsimp only
      rw [if_neg h.kind_ne_void]

/-- Reading a type takes exactly a type from the front of a text. -/
theorem readType_eq_ok_iff :
    readType desc t = .ok (ty, after) ↔ ty.IsResult ∧ t = ty.desc ++ after := by
  refine ⟨isResult_of_readType, ?_⟩
  rintro ⟨hfield | rfl, rfl⟩
  · exact hfield.readType_append desc after
  · rfl

/-! ## Whole descriptors -/

theorem parseFieldType_eq_ok_iff :
    parseFieldType desc = .ok ty ↔ ty.IsField ∧ ty.desc = desc := by
  have hread : readType desc desc = .ok (ty, []) ↔ ty.IsResult ∧
      ty.desc = desc := by
    rw [readType_eq_ok_iff, List.append_nil, eq_comm (a := desc)]
  have hparse : parseFieldType desc = .ok ty ↔
      readType desc desc = .ok (ty, []) ∧ ty.kind ≠ .void := by
    rw [parseFieldType]
    cases readType desc desc with
    | error e => simp
    | ok result =>
        obtain ⟨ty', after⟩ := result
        dsimp only
        split_ifs with hbad
        · refine iff_of_false (by simp) ?_
          rintro ⟨heq, hkind⟩
          cases heq
          simp [hkind] at hbad
        · rw [not_or, not_not] at hbad
          obtain ⟨hkind, rfl⟩ := hbad
          simp only [Except.ok.injEq, Prod.mk.injEq, and_true]
          exact ⟨fun h => ⟨h, h ▸ hkind⟩, fun h => h.1⟩
  rw [hparse, hread]
  constructor
  · rintro ⟨⟨hresult, hdesc⟩, hkind⟩
    exact ⟨hresult.isField_iff.mpr hkind, hdesc⟩
  · rintro ⟨hfield, hdesc⟩
    exact ⟨⟨.inl hfield, hdesc⟩, hfield.kind_ne_void⟩

/-- No field type starts with a closing parenthesis. -/
theorem Spells.head?_ne {kind : Kind} (h : Spells kind desc) (after : Text) :
    ∃ b rest, desc ++ after = b :: rest ∧ b ≠ byte ')' := by
  cases h with
  | @primitive letter kind h =>
      have hletters : ∀ entry ∈ primitives, entry.1 ≠ byte ')' := by decide
      exact ⟨letter, after, rfl, hletters _ h⟩
  | object hne hname => exact ⟨byte 'L', _, rfl, by decide⟩
  | array h => exact ⟨byte '[', _, rfl, by decide⟩

/-- Reading parameters takes field types up to the closing parenthesis. -/
theorem readArgs_eq_ok_iff {args : List FieldType} :
    readArgs desc t = .ok (args, after) ↔
      (∀ arg ∈ args, arg.IsField) ∧
      t = args.flatMap (·.desc) ++ byte ')' :: after := by
  constructor
  · intro h
    fun_induction readArgs desc t generalizing args after with
    | case1 => cases h
    | case2 rest =>
        cases h
        simp
    | case3 => cases h
    | case4 => cases h
    | case5 => cases h
    | case6 b rest hopen arg after' hread hkind args' after'' hargs ih =>
        cases h
        obtain ⟨hresult, heq⟩ := readType_eq_ok_iff.mp hread
        obtain ⟨hfields, hafter⟩ := ih hargs
        refine ⟨List.forall_mem_cons.mpr ⟨hresult.isField_iff.mpr hkind,
          hfields⟩, ?_⟩
        rw [heq, hafter, List.flatMap_cons, List.append_assoc]
  · rintro ⟨hfields, rfl⟩
    induction args with
    | nil =>
        rw [List.flatMap_nil, List.nil_append, readArgs, if_pos rfl]
    | cons arg args ih =>
        obtain ⟨hfield, hfields⟩ := List.forall_mem_cons.mp hfields
        rw [List.flatMap_cons, List.append_assoc]
        have hread := hfield.readType_append desc
          (args.flatMap (·.desc) ++ byte ')' :: after)
        obtain ⟨b, rest, hcons, hopen⟩ :=
          hfield.head?_ne (args.flatMap (·.desc) ++ byte ')' :: after)
        rw [hcons] at hread ⊢
        rw [readArgs, if_neg hopen]
        split
        · rename_i e herror
          rw [hread] at herror
          cases herror
        · rename_i arg' after' hread'
          rw [hread] at hread'
          cases hread'
          rw [if_neg hfield.kind_ne_void, ih hfields]

theorem parseMethodType_eq_ok_iff {mt : MethodType} :
    parseMethodType desc = .ok mt ↔ mt.WellFormed ∧ mt.render = desc := by
  constructor
  · intro h
    unfold parseMethodType at h
    split at h
    · cases h
    · rename_i b rest
      split_ifs at h with hopen
      split at h
      · cases h
      · rename_i args after hargs
        split at h
        · cases h
        · rename_i result after' hread
          split_ifs at h with hafter
          cases h
          obtain ⟨hfields, rfl⟩ := readArgs_eq_ok_iff.mp hargs
          obtain ⟨hresult, rfl⟩ := readType_eq_ok_iff.mp hread
          rw [not_not] at hopen hafter
          refine ⟨⟨hfields, hresult⟩, ?_⟩
          rw [MethodType.render, hopen, hafter, List.append_nil]
  · rintro ⟨⟨hfields, hresult⟩, rfl⟩
    have hargs : ∀ desc, readArgs desc
        (mt.args.flatMap (·.desc) ++ byte ')' :: mt.result.desc) =
          .ok (mt.args, mt.result.desc) :=
      fun _ => readArgs_eq_ok_iff.mpr ⟨hfields, rfl⟩
    have hread : ∀ desc, readType desc mt.result.desc = .ok (mt.result, []) :=
      fun _ => readType_eq_ok_iff.mpr ⟨hresult, (List.append_nil _).symm⟩
    rw [MethodType.render, parseMethodType, if_neg (by simp), hargs]
    dsimp only
    rw [hread]
    rfl

/-! ## Slots -/

/-- A field type takes one slot, or two if it is long or double. -/
theorem FieldType.IsField.size_eq (h : ty.IsField) :
    ty.size.toNat = 1 + if ty.desc = [byte 'J'] ∨
      ty.desc = [byte 'D'] then 1 else 0 := by
  obtain ⟨kind, desc⟩ := ty
  have hother : ∀ {b : UInt8} {rest : Text}, b ≠ byte 'J' → b ≠ byte 'D' →
      ¬(b :: rest = [byte 'J'] ∨ b :: rest = [byte 'D']) := by
    rintro b rest hlong hdouble (h | h)
    · exact hlong (List.cons.inj h).1
    · exact hdouble (List.cons.inj h).1
  cases h with
  | primitive h =>
      have hsizes : ∀ entry ∈ primitives, entry.2.size.toNat =
          1 + if [entry.1] = [byte 'J'] ∨
            [entry.1] = [byte 'D'] then 1 else 0 := by
        decide
      exact hsizes _ h
  | object hne hname =>
      rw [if_neg (hother (by decide) (by decide))]
      rfl
  | array h =>
      rw [if_neg (hother (by decide) (by decide))]
      rfl

theorem argSlots_eq {args : List FieldType} (h : ∀ arg ∈ args, arg.IsField)
    (result : FieldType) :
    MethodType.argSlots ⟨args, result⟩ = args.length +
      args.countP fun arg => arg.desc = [byte 'J'] ∨ arg.desc = [byte 'D'] := by
  rw [MethodType.argSlots]
  induction args with
  | nil => rfl
  | cons arg args ih =>
      obtain ⟨hfield, hfields⟩ := List.forall_mem_cons.mp h
      rw [List.foldr_cons, ih hfields, hfield.size_eq, List.length_cons,
        List.countP_cons]
      simp only [decide_eq_true_eq]
      omega

/-! ## Rejections -/

/-- An error is about the given text, and a byte that it shows stands where it
says. -/
def Error.Concerns (desc : Text) : Error → Prop
  | .unexpectedByte found offset subject =>
    subject = desc ∧ desc[offset]? = some found
  | .unexpectedEnd subject | .unterminatedClass subject | .voidElement subject
  | .notFieldType subject | .noParameters subject | .openParameters subject
  | .voidParameter subject | .trailing subject => subject = desc

variable {e : Error}

theorem concerns_of_readType (ht : t <:+ desc)
    (h : readType desc t = .error e) :
    e.Concerns desc := by
  fun_induction readType desc t with
  | case1 =>
      cases h
      rfl
  | case2 => cases h
  | case3 | case5 | case7 =>
      cases h
      rfl
  | case4 => cases h
  | case6 rest e' hread _ _ ih =>
      cases h
      exact ih ((List.suffix_cons _ _).trans ht) hread
  | case8 => cases h
  | case9 b rest =>
      cases h
      obtain ⟨before, rfl⟩ := ht
      refine ⟨rfl, ?_⟩
      rw [List.length_append, Nat.add_sub_cancel_right,
        List.getElem?_append_right (Nat.le_refl _), Nat.sub_self,
        List.getElem?_cons_zero]

theorem concerns_of_readArgs (ht : t <:+ desc)
    (h : readArgs desc t = .error e) :
    e.Concerns desc := by
  fun_induction readArgs desc t with
  | case1 =>
      cases h
      rfl
  | case2 => cases h
  | case3 b rest _ e' hread =>
      cases h
      exact concerns_of_readType ht hread
  | case4 =>
      cases h
      rfl
  | case5 b rest _ arg after hread _ e' hargs ih =>
      cases h
      obtain ⟨-, heq⟩ := readType_eq_ok_iff.mp hread
      exact ih ((heq ▸ List.suffix_append _ _).trans ht) hargs
  | case6 => cases h

theorem concerns_of_parseFieldType (h : parseFieldType desc = .error e) :
    e.Concerns desc := by
  rw [parseFieldType] at h
  split at h
  · rename_i hread
    cases h
    exact concerns_of_readType List.suffix_rfl hread
  · split_ifs at h
    cases h
    rfl

theorem concerns_of_parseMethodType (h : parseMethodType desc = .error e) :
    e.Concerns desc := by
  unfold parseMethodType at h
  split at h
  · cases h
    rfl
  · rename_i b rest
    split_ifs at h
    · cases h
      rfl
    · split at h
      · rename_i hargs
        cases h
        exact concerns_of_readArgs (List.suffix_cons _ _) hargs
      · rename_i args after hargs
        have hafter : after <:+ b :: rest := by
          obtain ⟨-, rfl⟩ := readArgs_eq_ok_iff.mp hargs
          refine List.IsSuffix.trans ?_ (List.suffix_cons _ _)
          exact (List.suffix_cons _ _).trans (List.suffix_append _ _)
        split at h
        · rename_i hread
          cases h
          exact concerns_of_readType hafter hread
        · split_ifs at h
          cases h
          rfl

/-- Descriptors are read by their grammar, which takes each of them apart in one
way.  A text is read as a field type if it is one, and as a method type if it is
the descriptor of one with field types as parameters; nothing else is accepted.
A rejection is an error about the text as a whole. -/
theorem descriptors_decompose_uniquely (desc : Text) :
    (∀ t, parseFieldType desc = .ok t ↔ t.IsField ∧ t.desc = desc) ∧
    (∀ t, parseMethodType desc = .ok t ↔ t.WellFormed ∧ t.render = desc) ∧
    (∀ t, parseMethodType desc = .ok t → t.argSlots = t.args.length +
      t.args.countP fun arg => arg.desc = [byte 'J'] ∨ arg.desc = [byte 'D']) ∧
    (∀ t t' : MethodType, t.WellFormed → t'.WellFormed → t.render = desc →
      t'.render = desc → t = t') ∧
    ∀ e, parseFieldType desc = .error e ∨ parseMethodType desc = .error e →
      e.Concerns desc ∧ text "malformed descriptor: " <+: e.message := by
  refine ⟨fun t => parseFieldType_eq_ok_iff, fun t => parseMethodType_eq_ok_iff,
    ?_, ?_, ?_⟩
  · intro t h
    obtain ⟨hwellFormed, -⟩ := parseMethodType_eq_ok_iff.mp h
    exact argSlots_eq hwellFormed.args t.result
  · intro t t' ht ht' hdesc hdesc'
    have hparse := parseMethodType_eq_ok_iff.mpr ⟨ht, hdesc⟩
    rw [parseMethodType_eq_ok_iff.mpr ⟨ht', hdesc'⟩] at hparse
    exact (Except.ok.inj hparse).symm
  · rintro e h
    refine ⟨?_, List.prefix_append _ _⟩
    rcases h with h | h
    · exact concerns_of_parseFieldType h
    · exact concerns_of_parseMethodType h

/-- A method type with class names that hold parentheses and brackets. -/
def oddNames : MethodType where
  args := [⟨.object, text "L(;"⟩, ⟨.array, text "[[L)[;"⟩, ⟨.long, text "J"⟩]
  result := ⟨.object, text "La(;"⟩

theorem oddNames_decompose :
    oddNames.WellFormed ∧
      parseMethodType (text "(L(;[[L)[;J)La(;") = .ok oddNames ∧
      oddNames.argSlots = 4 := by
  have hfirst : FieldType.IsField ⟨.object, text "L(;"⟩ :=
    @Spells.object [byte '('] (by decide) (by decide)
  have hsecond : FieldType.IsField ⟨.array, text "[[L)[;"⟩ :=
    .array
      (.array (@Spells.object [byte ')', byte '['] (by decide) (by decide)))
  have hthird : FieldType.IsField ⟨.long, text "J"⟩ := .primitive (by decide)
  have hresult : FieldType.IsField ⟨.object, text "La(;"⟩ :=
    @Spells.object [byte 'a', byte '('] (by decide) (by decide)
  have hodd : oddNames.WellFormed :=
    ⟨by simp [oddNames, hfirst, hsecond, hthird], .inl hresult⟩
  obtain ⟨-, hmethod, hslots, -⟩ :=
    descriptors_decompose_uniquely (text "(L(;[[L)[;J)La(;")
  have hparse := (hmethod oddNames).mpr ⟨hodd, by decide⟩
  exact ⟨hodd, hparse, hslots _ hparse⟩

end Descriptor
end Nullness
