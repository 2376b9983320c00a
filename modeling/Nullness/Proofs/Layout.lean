import Nullness.Proofs.ParseFailures

/-!
# The layout of a source text

How the fields of a line are set apart, and what its comment says, is of no
interest to the assembler: a source text may be written anew with single blanks
and without comments, and is read as before, errors and their line numbers
included.

For one line this needs an argument, since blanks and semicolons may stand
inside of quotes.  `Collected` says that the reader, started on the bytes of an
unfinished field, comes to where it is now.  So a field that is written down is
collected again, and an unfinished quoted part stays the last of its line.

Directives that only serve debugging may be added anywhere in a method, but not
among the cases of a switch, where every line is a case.  They move the lines
behind them, and so the methods of two texts are compared with all lines
unnumbered.
-/

namespace Nullness
namespace Assembly

/-! ## Normal form -/

/-- A line with its fields set apart by single blanks, and without its
comment. -/
def normalizeLine (line : Text) : Text := Text.join (text " ") (fields line)

/-- A source text with each of its lines in normal form. -/
def normalize (source : Text) : Text :=
  Text.join (text "\n") ((sourceLines source).map normalizeLine)

/-- The reader comes to where it is by reading the bytes of the unfinished
field. -/
def Collected (quoting : Quoting) (current : Text) : Prop :=
  ∀ rest, fieldsFrom .outside [] (current.reverse ++ rest) =
    fieldsFrom quoting current rest

theorem collected_start : Collected .outside [] := fun _ => rfl

theorem Collected.cons {quoting quoting' : Quoting} {current : Text} {b : UInt8}
    (h : Collected quoting current)
    (hstep : ∀ rest, fieldsFrom quoting current (b :: rest) =
      fieldsFrom quoting' (b :: current) rest) :
    Collected quoting' (b :: current) := by
  intro rest
  rw [List.reverse_cons, List.append_assoc, List.singleton_append, h, hstep]

/-- A field that ends with its line. -/
theorem Collected.fields_join_finishField {quoting : Quoting} {current : Text}
    (h : Collected quoting current) :
    fields (Text.join (text " ") (finishField current)) =
      finishField current := by
  by_cases hcurrent : current.isEmpty = true
  · rw [finishField, if_pos hcurrent]
    rfl
  · have hread := h []
    rw [List.append_nil, fieldsFrom, finishField, if_neg hcurrent] at hread
    rw [finishField, if_neg hcurrent]
    exact hread

/-- A field that ends at a blank. -/
theorem Collected.fields_join_append {current : Text}
    (h : Collected .outside current) {ts : List Text}
    (hts : fields (Text.join (text " ") ts) = ts) :
    fields (Text.join (text " ") (finishField current ++ ts)) =
      finishField current ++ ts := by
  by_cases hcurrent : current = []
  · rw [hcurrent]
    exact hts
  cases ts with
  | nil =>
      rw [List.append_nil]
      exact h.fields_join_finishField
  | cons u ts =>
      have hfield : finishField current = [current.reverse] :=
        if_neg (by simpa using hcurrent)
      have hreads : ∀ rest, fieldsFrom .outside [] (current.reverse ++ rest) =
          fieldsFrom .outside current.reverse.reverse rest := by
        rw [List.reverse_reverse]
        exact h
      rw [hfield, List.singleton_append, join_cons_cons,
        fields_append_blank (by simpa using hcurrent) hreads, hts]

/-- The fields of the rest of a line are read back, however far the reader is in
it. -/
theorem Collected.fields_join_fieldsFrom {quoting : Quoting}
    {current rest : Text} (h : Collected quoting current) :
    fields (Text.join (text " ") (fieldsFrom quoting current rest)) =
      fieldsFrom quoting current rest := by
  -- Only a blank, a comment and the end of the line stop the collecting; any
  -- other byte is one more of the unfinished field.
  fun_induction fieldsFrom quoting current rest with
  | case1 quoting current => exact h.fields_join_finishField
  | case2 current rest ih =>
      exact ih (h.cons fun _ => by rw [fieldsFrom, if_pos rfl])
  | case3 current b rest hquote hcomment => rfl
  | case4 current b rest hquote hcomment hblank ih =>
      exact h.fields_join_append (ih collected_start)
  | case5 current b rest hquote hcomment hblank ih =>
      exact ih (h.cons fun _ => by
        rw [fieldsFrom, if_neg hquote, if_neg hcomment, if_neg hblank])
  | case6 current rest ih =>
      exact ih (h.cons fun _ => by rw [fieldsFrom, if_pos rfl])
  | case7 current rest hbackslash ih =>
      exact ih (h.cons fun _ => by
        rw [fieldsFrom, if_neg hbackslash, if_pos rfl])
  | case8 current b rest hbackslash hquote ih =>
      exact ih (h.cons fun _ => by
        rw [fieldsFrom, if_neg hbackslash, if_neg hquote])
  | case9 current b rest ih =>
      exact ih (h.cons fun _ => by rw [fieldsFrom])

theorem fields_normalizeLine (line : Text) :
    fields (normalizeLine line) = fields line :=
  collected_start.fields_join_fieldsFrom

/-! ## Lines in normal form -/

/-- Fields are made of the bytes of their line. -/
theorem mem_of_mem_fieldsFrom {quoting : Quoting} {current rest t : Text}
    {b : UInt8} (ht : t ∈ fieldsFrom quoting current rest) (hb : b ∈ t) :
    b ∈ current ∨ b ∈ rest := by
  have hfinish : ∀ {current : Text}, t ∈ finishField current → b ∈ current := by
    intro current h
    rw [finishField] at h
    split_ifs at h
    · cases h
    · rw [List.mem_singleton.mp h] at hb
      exact List.mem_reverse.mp hb
  fun_induction fieldsFrom quoting current rest with
  | case1 quoting current => exact .inl (hfinish ht)
  | case3 current c rest hquote hcomment => cases ht
  | case4 current c rest hquote hcomment hblank ih =>
      rcases List.mem_append.mp ht with ht | ht
      · exact .inl (hfinish ht)
      · simpa using .inr (.inr ((ih ht).resolve_left List.not_mem_nil))
  | case2 current rest ih | case5 current c rest _ _ _ ih
  | case6 current rest ih | case7 current rest _ ih
  | case8 current c rest _ _ ih | case9 current c rest ih =>
      -- The byte that is read goes from the rest to the unfinished field.
      grind

theorem newline_notMem_of_mem_sourceLines {source line : Text}
    (h : line ∈ sourceLines source) : byte '\n' ∉ line := by
  rw [sourceLines, Text.splitOn_eq] at h
  induction source generalizing line with
  | nil =>
      rw [List.splitOn_nil, List.mem_singleton] at h
      rw [h]
      exact List.not_mem_nil
  | cons b source ih =>
      rw [List.splitOn_cons_eq_if_modifyHead] at h
      split_ifs at h with hb
      · rcases List.mem_cons.mp h with rfl | h
        · exact List.not_mem_nil
        · exact ih h
      · obtain ⟨piece, pieces, hpieces⟩ :=
          List.exists_cons_of_ne_nil (List.splitOn_ne_nil (byte '\n') source)
        rw [hpieces] at h ih
        rcases List.mem_cons.mp h with rfl | h
        · have hpiece := ih List.mem_cons_self
          grind
        · exact ih (List.mem_cons_of_mem piece h)

theorem sourceLines_normalize (source : Text) :
    sourceLines (normalize source) =
      (sourceLines source).map normalizeLine := by
  apply sourceLines_join
  · rw [sourceLines, Text.splitOn_eq]
    simp
  · intro normal hnormal
    obtain ⟨line, hline, rfl⟩ := List.mem_map.mp hnormal
    apply newline_notMem_join
    intro t ht hmem
    have hbyte := (mem_of_mem_fieldsFrom ht hmem).resolve_left List.not_mem_nil
    exact newline_notMem_of_mem_sourceLines hline hbyte

theorem readLines_normalize (source : Text) :
    readLines (normalize source) = readLines source := by
  rw [readLines_eq, readLines_eq, sourceLines_normalize, List.map_map]
  congr 2
  funext line
  exact fields_normalizeLine line

/-! ## Directives for debugging -/

/-- Where the line after a line of the source text stands.  A line without
fields changes nothing. -/
def Region.afterLine (region : Region) (line : Text) : Region :=
  (Line.ofFields? 0 (fields line)).elim region region.next

/-- A line that the assembler passes over in a method. -/
def IsDebugLine (line : Text) : Prop :=
  ∃ word ∈ ignoredInside, (fields line).head? = some word

/-- The second list of lines is the first one with debug lines added, each of
them in the body of a method.  The lines start in the given region. -/
inductive DebugLinesAdded : Region → List Text → List Text → Prop
  | done (region : Region) : DebugLinesAdded region [] []
  | keep {region : Region} {line : Text} {lines lines' : List Text}
      (hrest : DebugLinesAdded (region.afterLine line) lines lines') :
      DebugLinesAdded region (line :: lines) (line :: lines')
  | add {line : Text} {lines lines' : List Text} (hline : IsDebugLine line)
      (hrest : DebugLinesAdded .body lines lines') :
      DebugLinesAdded .body lines (line :: lines')

theorem debugLinesAdded_cons_iff {region : Region} {line : Text}
    {lines lines' : List Text} :
    DebugLinesAdded region lines (line :: lines') ↔
      (lines.head? = some line ∧
        DebugLinesAdded (region.afterLine line) lines.tail lines') ∨
      (region = .body ∧ IsDebugLine line ∧
        DebugLinesAdded .body lines lines') := by
  constructor
  · rintro (_ | hrest | ⟨hline, hrest⟩)
    · exact .inl ⟨rfl, hrest⟩
    · exact .inr ⟨rfl, hline, hrest⟩
  · rintro (⟨hhead, hrest⟩ | ⟨rfl, hline, hrest⟩)
    · rw [← List.cons_head?_tail hhead]
      exact .keep hrest
    · exact .add hline hrest

instance (line : Text) : Decidable (IsDebugLine line) :=
  inferInstanceAs
    (Decidable (∃ word ∈ ignoredInside, (fields line).head? = some word))

instance decidableDebugLinesAdded (region : Region) (lines : List Text) :
    (lines' : List Text) → Decidable (DebugLinesAdded region lines lines')
  | [] =>
    match lines with
    | [] => isTrue (.done region)
    | _ :: _ => isFalse nofun
  | line :: lines' =>
    have := decidableDebugLinesAdded (region.afterLine line) lines.tail lines'
    have := decidableDebugLinesAdded .body lines lines'
    decidable_of_iff' _ debugLinesAdded_cons_iff

/-- What comes before a text whose lines all have the number zero. -/
def unnumbered : Preceding where
  number _ := 0
  methods := []
  owner := id

/-- The lines that hold something, without their numbers. -/
def bareLines (lines : List Text) : List Line :=
  lines.filterMap fun line => Line.ofFields? 0 (fields line)

theorem bareLines_cons (line : Text) (lines : List Text) :
    bareLines (line :: lines) =
      (Line.ofFields? 0 (fields line)).toList ++ bareLines lines := by
  rw [bareLines, List.filterMap_cons]
  cases Line.ofFields? 0 (fields line) <;> rfl

theorem map_line_readLines (source : Text) :
    (readLines source).map unnumbered.line =
      bareLines (sourceLines source) := by
  rw [readLines_eq]
  generalize sourceLines source = lines, 1 = number
  induction lines generalizing number with
  | nil => rfl
  | cons line lines ih =>
      rw [List.map_cons, numberedFrom, List.map_append, ih, bareLines_cons]
      cases fields line <;> rfl

/-- Reading the lines without their numbers gives the same methods, and errors
without their line numbers. -/
theorem foldlM_bareLines (source : Text) :
    ((bareLines (sourceLines source)).foldlM advance {} >>= Progress.finish) =
      carry (fun _ => 0) id (parse source) := by
  have hstart : ({} : Progress) = unnumbered.progress {} := by
    simp [Preceding.progress, Preceding.mode, unnumbered]
  have hmethods : (fun ms : List Method =>
      unnumbered.methods ++ ms.map unnumbered.method) = id := by
    funext ms
    exact List.map_id ms
  rw [← map_line_readLines, hstart, ← hmethods]
  exact carry_bind (unnumbered.foldlM_progress {} fun _ _ _ _ => rfl)
    unnumbered.finish_progress

theorem carry_eq_ok_iff {α : Type} {n : Nat → Nat}
    {x : Except (Failure SyntaxError) α} {a : α} :
    carry n id x = .ok a ↔ x = .ok a := by
  cases x <;> simp [carry]

/-- A debug line in the body of a method changes nothing. -/
theorem advance_debugLine {p : Progress} (hp : p.mode.region = .body)
    {line : Line} (hline : line.head ∈ ignoredInside) :
    advance p line = .ok p := by
  have hother : ∀ word ∈ ignoredInside, labelName? word = none ∧
      word ≠ text ".end" ∧
      word ≠ text ".limit" ∧ word ≠ text ".param" ∧ word ≠ text ".catch" := by
    decide
  obtain ⟨hlabel, hend, hlimit, hparam, hcatch⟩ := hother line.head hline
  obtain ⟨owner, methods, mode⟩ := p
  cases mode with
  | outside => cases hp
  | cases draft head => cases hp
  | body draft =>
      simp only [advance, advanceLabelled, hlabel]
      rw [advanceBody, if_neg hend, if_neg hlimit, if_neg hparam, if_neg hcatch,
        if_pos (List.contains_iff_mem.mpr hline)]

/-- Debug lines that are added leave what is read as it is. -/
theorem DebugLinesAdded.foldlM_eq {region : Region} {lines lines' : List Text}
    (h : DebugLinesAdded region lines lines') {p : Progress}
    (hp : p.mode.region = region) :
    (bareLines lines').foldlM advance p =
      (bareLines lines).foldlM advance p := by
  induction h generalizing p with
  | done region => rfl
  | @keep region line lines lines' hrest ih =>
      rw [bareLines_cons, bareLines_cons]
      rw [Region.afterLine] at ih
      cases hline : Line.ofFields? 0 (fields line) with
      | none =>
          rw [hline] at ih
          exact ih hp
      | some bare =>
          rw [hline] at ih
          -- The reader stands where the regions say, so the next added line is
          -- in a body.
          change (advance p bare >>= _) = (advance p bare >>= _)
          cases hstep : advance p bare with
          | error failure => rfl
          | ok p' =>
              apply ih
              rw [region_of_advance hstep, hp]
              rfl
  | @add line lines lines' hline hrest ih =>
      obtain ⟨word, hword, hhead⟩ := hline
      obtain ⟨args, hfields⟩ := List.head?_eq_some_iff.mp hhead
      rw [bareLines_cons, hfields]
      change (advance p ⟨0, word, args⟩ >>= _) = _
      rw [advance_debugLine hp hword]
      exact ih hp

/-! ## Main result -/

/-- The layout of a source text is irrelevant.  In normal form its lines have
the fields that they had, and the whole text has the same methods or the same
failure, reported at the same line.  Debug lines that are added in the bodies of
methods, but not among the cases of a switch, change nothing about the methods,
nor whether there are any. -/
theorem layout_is_irrelevant (source : Text) :
    sourceLines (normalize source) = (sourceLines source).map normalizeLine ∧
    (∀ line, fields (normalizeLine line) = fields line) ∧
    parse (normalize source) = parse source ∧
    ∀ source', DebugLinesAdded .outside (sourceLines source)
      (sourceLines source') →
      ∀ ms, parse source' = .ok ms ↔ parse source = .ok ms := by
  refine ⟨sourceLines_normalize source, fields_normalizeLine, ?_, ?_⟩
  · rw [parse, parse, readLines_normalize]
  · intro source' hadded ms
    have hread := hadded.foldlM_eq (p := {}) rfl
    have hbare : carry (fun _ => 0) id (parse source') =
        carry (fun _ => 0) id (parse source) := by
      rw [← foldlM_bareLines, ← foldlM_bareLines, hread]
    rw [← carry_eq_ok_iff (n := fun _ => 0), hbare, carry_eq_ok_iff]

/-- A text with a switch, a comment, and a label that stands alone. -/
def switchText : Text :=
  Text.join (text "\n") (
    [".method  static f(I)V ; one switch", "\tiload_0", "lookupswitch",
      " 1 : Stop", "",
      " default : Stop", "Stop:", " return\r", ".end method"].map text)

/-- The text with single blanks and without its comment. -/
def plainText : Text :=
  Text.join (text "\n") (
    [".method static f(I)V", "iload_0", "lookupswitch", "1 : Stop", "",
      "default : Stop", "Stop:", "return", ".end method"].map text)

/-- The text with debug lines before the switch, after it and after the label.
One of them ends in an unfinished quoted part. -/
def debugText : Text :=
  Text.join (text "\n") (
    [".method  static f(I)V ; one switch", ".line 3", "\tiload_0",
      "lookupswitch", " 1 : Stop",
      "", " default : Stop", " .var 0 is i I", ".throws E ; rarely", "Stop:",
      ".signature \"a ; b", " return\r", ".end method"].map text)

theorem layout_is_irrelevant_switchText :
    normalize switchText = plainText ∧
      DebugLinesAdded .outside (sourceLines switchText)
        (sourceLines debugText) ∧
      ∃ ms, ms.length = 1 ∧ parse switchText = .ok ms ∧
        parse plainText = .ok ms ∧ parse debugText = .ok ms := by
  have hplain : normalize switchText = plainText := by decide +kernel
  have hadded : DebugLinesAdded .outside (sourceLines switchText)
      (sourceLines debugText) := by
    decide +kernel
  have hone : (parse switchText).toOption.map List.length = some 1 := by
    decide +kernel
  obtain ⟨-, -, hnormal, hdebug⟩ := layout_is_irrelevant switchText
  cases hparse : parse switchText with
  | error failure =>
      rw [hparse] at hone
      cases hone
  | ok ms =>
      rw [hparse] at hone
      refine ⟨hplain, hadded, ms, Option.some.inj hone, rfl, ?_, ?_⟩
      · rw [← hplain, hnormal, hparse]
      · exact (hdebug debugText hadded ms).mpr hparse

end Assembly
end Nullness
