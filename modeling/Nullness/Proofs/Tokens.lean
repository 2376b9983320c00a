import Nullness.Assembly.Printer
import Mathlib.Data.List.Basic

/-!
# Reading lines and fields back

A source text is cut into lines, and a line into fields.  Here is the other
direction: lines of fields that are joined by line feeds and blanks are read
back as they were.

What a field may be is said by what reading it does: `IsField` asks that the
reader ends up outside of quotes, with exactly the bytes of the field collected,
whatever follows.  Tokens are such fields, and so is a finished quoted text.
-/

namespace Nullness

/-! ## Splitting and joining -/

/-- Splitting a list from its end, with a step that starts a new piece at the
separator, is the splitting of the standard library. -/
theorem foldr_eq_splitOn {α : Type} [BEq α] [LawfulBEq α] {sep : α}
    {step : α → List (List α) → List (List α)}
    (hsep : ∀ pieces, step sep pieces = [] :: pieces)
    (hother : ∀ a piece rest, a ≠ sep →
      step a (piece :: rest) = (a :: piece) :: rest)
    (l : List α) : l.foldr step [[]] = l.splitOn sep := by
  induction l with
  | nil => rfl
  | cons a l ih =>
      rw [List.foldr_cons, ih, List.splitOn_cons_eq_if_modifyHead]
      cases hpieces : l.splitOn sep with
      | nil => exact absurd hpieces (List.splitOn_ne_nil sep l)
      | cons piece rest =>
          by_cases h : a = sep
          · rw [if_pos (by simp [h]), h, hsep]
          · rw [if_neg (by simp [h]), hother a piece rest h]
            rfl

namespace Text

theorem splitOn_eq (sep : UInt8) (t : Text) :
    splitOn sep t = List.splitOn sep t :=
  foldr_eq_splitOn (fun _ => if_pos rfl) (fun _ _ _ h => if_neg h) t

theorem join_eq (sep : Text) (pieces : List Text) :
    join sep pieces = sep.intercalate pieces := by
  induction pieces with
  | nil => rfl
  | cons piece rest ih =>
      cases rest with
      | nil => simp [join]
      | cons next rest => simp [join, ih]

/-! ## Cutting -/

theorem cutAt_eq_some_iff {p : UInt8 → Bool} {t before after : Text} :
    cutAt p t = some (before, after) ↔
      ∃ b, t = before ++ b :: after ∧ p b = true ∧
      ∀ c ∈ before, p c = false := by
  induction t generalizing before with
  | nil => simp [cutAt]
  | cons b t ih =>
      rw [cutAt]
      by_cases hb : p b = true
      · rw [if_pos hb]
        constructor
        · rintro ⟨⟩
          exact ⟨b, rfl, hb, by simp⟩
        · rintro ⟨c, heq, -, hbefore⟩
          cases before with
          | nil =>
              cases heq
              rfl
          | cons d before =>
              cases heq
              exact absurd hb (by simp [hbefore b List.mem_cons_self])
      · rw [if_neg hb]
        constructor
        · intro h
          obtain ⟨⟨before', after'⟩, hcut, heq⟩ := Option.map_eq_some_iff.mp h
          cases heq
          obtain ⟨c, rfl, hc, hbefore⟩ := ih.mp hcut
          exact ⟨c, rfl, hc,
            List.forall_mem_cons.mpr ⟨by simpa using hb, hbefore⟩⟩
        · rintro ⟨c, heq, hc, hbefore⟩
          cases before with
          | nil =>
              cases heq
              exact absurd hc hb
          | cons d before =>
              obtain ⟨rfl, ht⟩ := List.cons.inj heq
              have hcut : cutAt p t = some (before, after) :=
                ih.mpr ⟨c, ht, hc, fun d hd =>
                  hbefore d (List.mem_cons_of_mem _ hd)⟩
              rw [hcut]
              rfl

theorem cut_eq_some_iff {sep : UInt8} {t before after : Text} :
    cut sep t = some (before, after) ↔
      t = before ++ sep :: after ∧ sep ∉ before := by
  rw [cut, cutAt_eq_some_iff]
  constructor
  · rintro ⟨b, rfl, hb, hbefore⟩
    obtain rfl : b = sep := by simpa using hb
    exact ⟨rfl, fun hmem => absurd (hbefore b hmem) (by simp)⟩
  · rintro ⟨rfl, hsep⟩
    refine ⟨sep, rfl, by simp, ?_⟩
    intro b hb
    simpa using ne_of_mem_of_not_mem hb hsep

theorem cut_eq_none_iff {sep : UInt8} {t : Text} :
    cut sep t = none ↔ sep ∉ t := by
  constructor
  · intro h hmem
    obtain ⟨before, after, ht, hbefore⟩ := List.eq_append_cons_of_mem hmem
    exact absurd (cut_eq_some_iff.mpr ⟨ht, hbefore⟩) (by simp [h])
  · intro h
    cases hcut : cut sep t with
    | none => rfl
    | some parts =>
        obtain ⟨rfl, -⟩ := cut_eq_some_iff.mp hcut
        exact absurd (by simp) h

theorem cutLastAt_eq_some_iff {p : UInt8 → Bool} {t before after : Text} :
    cutLastAt p t = some (before, after) ↔
      ∃ b, t = before ++ b :: after ∧ p b = true ∧
      ∀ c ∈ after, p c = false := by
  have hreverse : cutLastAt p t = some (before, after) ↔
      cutAt p t.reverse = some (after.reverse, before.reverse) := by
    rw [cutLastAt, Option.map_eq_some_iff]
    constructor
    · rintro ⟨⟨after', before'⟩, hcut, heq⟩
      cases heq
      simpa using hcut
    · intro hcut
      exact ⟨_, hcut, by simp⟩
  rw [hreverse, cutAt_eq_some_iff]
  simp [List.reverse_eq_iff]

end Text

namespace Assembly

theorem splitBars_eq (fields : List Text) :
    splitBars fields = fields.splitOn bar :=
  foldr_eq_splitOn (fun _ => if_pos rfl) (fun _ _ _ h => if_neg h) fields

/-! ## Tokens -/

/-- Whether a byte may stand in a token. -/
def isTokenByte (b : UInt8) : Bool :=
  !isBlank b && b ≠ byte '\n' && b ≠ byte '"'

/-- A text that is read as one field: it holds no blank, line feed or quote, and
does not start a comment. -/
structure IsToken (t : Text) : Prop where
  ne_nil : t ≠ []
  bytes : ∀ b ∈ t, isTokenByte b = true
  head : t.head? ≠ some (byte ';')

instance (t : Text) : Decidable (IsToken t) :=
  -- The bytes of the text are tried, and not all bytes there are.
  decidable_of_iff (t ≠ [] ∧ t.all isTokenByte = true ∧
    t.head? ≠ some (byte ';'))
    ⟨fun ⟨hne, hbytes, hhead⟩ => ⟨hne, List.all_eq_true.mp hbytes, hhead⟩,
      fun h => ⟨h.ne_nil, List.all_eq_true.mpr h.bytes, h.head⟩⟩

/-- A text that is read as one field wherever a field may start. -/
structure IsField (t : Text) : Prop where
  ne_nil : t ≠ []
  newline : byte '\n' ∉ t
  reads : ∀ rest, fieldsFrom .outside [] (t ++ rest) =
    fieldsFrom .outside t.reverse rest

/-- The bytes of a token are collected one after the other. -/
theorem fieldsFrom_append {t current rest : Text}
    (hbytes : ∀ b ∈ t, isTokenByte b = true)
    (hhead : current ≠ [] ∨ t.head? ≠ some (byte ';')) :
    fieldsFrom .outside current (t ++ rest) =
      fieldsFrom .outside (t.reverse ++ current) rest := by
  induction t generalizing current with
  | nil => rfl
  | cons b t ih =>
      have hb := hbytes b List.mem_cons_self
      simp only [isTokenByte, Bool.and_eq_true, Bool.not_eq_true',
        decide_eq_true_eq] at hb
      obtain ⟨⟨hblank, -⟩, hquote⟩ := hb
      have hcomment : ¬ (b = byte ';' ∧ current.isEmpty = true) := by
        rintro ⟨rfl, hempty⟩
        rcases hhead with hcurrent | hhead
        · exact hcurrent (List.isEmpty_iff.mp hempty)
        · exact hhead rfl
      rw [List.cons_append, fieldsFrom, if_neg hquote, if_neg hcomment, hblank,
        if_neg Bool.false_ne_true,
        ih (fun c hc => hbytes c (List.mem_cons_of_mem b hc))
          (Or.inl (List.cons_ne_nil b current)),
        List.reverse_cons, List.append_assoc]
      rfl

theorem IsToken.isField {t : Text} (h : IsToken t) : IsField t where
  ne_nil := h.ne_nil
  newline hmem := absurd (h.bytes _ hmem) (by decide)
  reads rest := by
    rw [fieldsFrom_append h.bytes (Or.inr h.head), List.append_nil]

/-- A token stays one if more of its bytes follow. -/
theorem IsToken.append {t u : Text} (h : IsToken t)
    (hu : ∀ b ∈ u, isTokenByte b = true) : IsToken (t ++ u) where
  ne_nil := List.append_ne_nil_of_left_ne_nil h.ne_nil u
  bytes b hb := (List.mem_append.mp hb).elim (h.bytes b) (hu b)
  head := by
    rw [List.head?_append_of_ne_nil t h.ne_nil]
    exact h.head

/-! ## Fields and lines -/

/-- A text that has been collected as one field ends at a blank. -/
theorem fields_append_blank {t : Text} (hne : t ≠ [])
    (hreads : ∀ rest, fieldsFrom .outside [] (t ++ rest) =
      fieldsFrom .outside t.reverse rest) (rest : Text) :
    fields (t ++ byte ' ' :: rest) = t :: fields rest := by
  have hblank : isBlank (byte ' ') = true := by decide
  have hcomment : ¬ (byte ' ' = byte ';' ∧ t.reverse.isEmpty = true) :=
    fun h => absurd h.1 (by decide)
  rw [fields, hreads, fieldsFrom, if_neg (by decide), if_neg hcomment, hblank,
    if_pos rfl, finishField, if_neg (by simpa using hne), List.reverse_reverse]
  rfl

theorem join_cons_cons (t u : Text) (ts : List Text) :
    Text.join (text " ") (t :: u :: ts) =
      t ++ byte ' ' :: Text.join (text " ") (u :: ts) := by
  simp [Text.join, show text " " = [byte ' '] from rfl]

theorem fields_join {ts : List Text} (h : ∀ t ∈ ts, IsField t) :
    fields (Text.join (text " ") ts) = ts := by
  induction ts with
  | nil => rfl
  | cons t ts ih =>
      have ht := h t List.mem_cons_self
      have hts : ∀ u ∈ ts, IsField u :=
        fun u hu => h u (List.mem_cons_of_mem t hu)
      cases ts with
      | nil =>
          have hreads := ht.reads []
          rw [List.append_nil] at hreads
          rw [Text.join, fields, hreads, fieldsFrom, finishField,
            if_neg (by simpa using ht.ne_nil), List.reverse_reverse]
      | cons u ts =>
          rw [join_cons_cons, fields_append_blank ht.ne_nil ht.reads, ih hts]

theorem newline_notMem_join {ts : List Text} (h : ∀ t ∈ ts, byte '\n' ∉ t) :
    byte '\n' ∉ Text.join (text " ") ts := by
  induction ts with
  | nil => exact List.not_mem_nil
  | cons t ts ih =>
      have ht := h t List.mem_cons_self
      have hts := ih fun u hu => h u (List.mem_cons_of_mem t hu)
      cases ts with
      | nil => exact ht
      | cons u ts =>
          have hblank : byte '\n' ∉ text " " := by decide
          simp [Text.join, ht, hts, hblank]

theorem sourceLines_join {lines : List Text} (hne : lines ≠ [])
    (h : ∀ line ∈ lines, byte '\n' ∉ line) :
    sourceLines (Text.join (text "\n") lines) = lines := by
  rw [sourceLines, Text.splitOn_eq, Text.join_eq]
  exact List.splitOn_intercalate (byte '\n') h hne

/-- Lines of fields as the lines that the reader works on, numbered from a
number on.  A line without fields is none, but counts. -/
def numberedFrom : (number : Nat) → List (List Text) → List Line
  | _, [] => []
  | number, fields :: lines =>
    (Line.ofFields? number fields).toList ++ numberedFrom (number + 1) lines

theorem numberedFrom_append (number : Nat) (lines more : List (List Text)) :
    numberedFrom number (lines ++ more) =
      numberedFrom number lines ++
        numberedFrom (number + lines.length) more := by
  induction lines generalizing number with
  | nil => rfl
  | cons fields lines ih =>
      rw [List.cons_append, numberedFrom, ih, numberedFrom, List.append_assoc,
        List.length_cons, Nat.add_assoc, Nat.add_comm 1]

theorem readLines_eq (source : Text) :
    readLines source = numberedFrom 1 ((sourceLines source).map fields) := by
  have hfrom : ∀ (lines : List Text) (number : Nat),
      (lines.zipIdx number).filterMap (fun entry =>
        Line.ofFields? (entry.2 + 1) (fields entry.1)) =
        numberedFrom (number + 1) (lines.map fields) := by
    intro lines
    induction lines with
    | nil => exact fun _ => rfl
    | cons line lines ih =>
        intro number
        rw [List.zipIdx_cons, List.map_cons, numberedFrom, ← ih (number + 1)]
        cases h : Line.ofFields? (number + 1) (fields line) <;> simp [h]
  exact hfrom (sourceLines source) 0

/-- Printed lines are read back as they were. -/
theorem readLines_renderLines {lines : List (List Text)} (hne : lines ≠ [])
    (h : ∀ line ∈ lines, ∀ t ∈ line, IsField t) :
    readLines (renderLines lines) = numberedFrom 1 lines := by
  have hsource : sourceLines (renderLines lines) =
      lines.map (Text.join (text " ")) := by
    refine sourceLines_join (by simpa using hne) ?_
    intro joined hjoined
    obtain ⟨line, hline, rfl⟩ := List.mem_map.mp hjoined
    exact newline_notMem_join fun t ht => (h line hline t ht).newline
  rw [readLines_eq, hsource, List.map_map]
  congr 1
  calc
    lines.map (fields ∘ Text.join (text " ")) = lines.map id := by
      apply List.map_congr_left
      intro line hline
      exact fields_join (h line hline)
    _ = lines := List.map_id lines

end Assembly
end Nullness
