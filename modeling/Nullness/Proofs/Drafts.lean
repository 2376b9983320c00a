import Nullness.Proofs.Reading

/-!
# What a draft holds

While a source text is read, a draft collects what becomes a method.  What it
holds comes from the lines that have been read: its lines are parts of them, its
labels mark positions of its body, and its bounds are not negative.
`Progress.From` says so of everything the reader holds.  Taking in one more line
keeps it, and so does reading a whole source text.

How many lines a draft and how many fields a line has is bounded by the size of
the text, so that no position is too large for a number of 64 bits.
-/

namespace Nullness
namespace Assembly

/-! ## The size of a source text -/

/-- How much of a source text lines take at least: their fields, and one byte to
end each line. -/
def volume (lines : List Line) : Nat :=
  (lines.flatMap Line.args).length + 2 * lines.length

theorem volume_append (lines more : List Line) :
    volume (lines ++ more) = volume lines + volume more := by
  simp only [volume, List.flatMap_append, List.length_append]
  omega

theorem volume_singleton (line : Line) :
    volume [line] = line.args.length + 2 := by
  simp [volume]

theorem le_volume_of_mem {lines : List Line} {line : Line} (h : line ∈ lines) :
    line.args.length + 2 ≤ volume lines := by
  obtain ⟨before, after, rfl⟩ := List.append_of_mem h
  rw [← List.singleton_append, volume_append, volume_append, volume_singleton]
  omega

/-- A line has at most as many fields as bytes; a field that has been started
counts as a byte. -/
theorem length_fieldsFrom_le (quoting : Quoting) (current t : Text) :
    (fieldsFrom quoting current t).length ≤
      (finishField current).length + t.length := by
  have hstarted : ∀ b (current : Text),
      (finishField (b :: current)).length = 1 := by
    simp [finishField]
  fun_induction fieldsFrom quoting current t with
  | case1 => exact Nat.le_add_right _ _
  | case3 => exact Nat.zero_le _
  | case4 current b rest _ _ _ ih =>
      have hnone : (finishField []).length = 0 := rfl
      rw [hnone] at ih
      rw [List.length_append, List.length_cons]
      omega
  | case2 | case5 | case6 | case7 | case8 | case9 =>
      rename_i ih
      rw [hstarted] at ih
      rw [List.length_cons]
      omega

theorem length_fields_le (line : Text) :
    (fields line).length ≤ line.length := by
  have h := length_fieldsFrom_le .outside [] line
  rw [show (finishField []).length = 0 from rfl, Nat.zero_add] at h
  exact h

theorem length_flatten_fields_le (lines : List Text) :
    (lines.map fields).flatten.length ≤ lines.flatten.length := by
  induction lines with
  | nil => exact Nat.le_refl 0
  | cons line lines ih =>
      rw [List.map_cons, List.flatten_cons, List.flatten_cons,
        List.length_append, List.length_append]
      exact Nat.add_le_add (length_fields_le line) ih

theorem volume_numberedFrom_le (number : Nat) (lines : List (List Text)) :
    volume (numberedFrom number lines) ≤
      lines.flatten.length + lines.length := by
  induction lines generalizing number with
  | nil => exact Nat.le_refl 0
  | cons line lines ih =>
      have hline : volume (Line.ofFields? number line).toList ≤
          line.length + 1 := by
        cases line <;> simp [Line.ofFields?, volume]
      have hlines := ih (number + 1)
      rw [numberedFrom, volume_append, List.flatten_cons, List.length_append,
        List.length_cons]
      omega

/-- Between pieces there is one separator less than there are pieces. -/
theorem length_flatten_add_length {α : Type} (sep : α) {pieces : List (List α)}
    (h : pieces ≠ []) :
    pieces.flatten.length + pieces.length =
      ([sep].intercalate pieces).length + 1 := by
  induction pieces with
  | nil => exact absurd rfl h
  | cons piece pieces ih =>
      cases pieces with
      | nil => simp
      | cons next pieces =>
          have hrest := ih (List.cons_ne_nil _ _)
          rw [List.flatten_cons, List.length_append, List.length_cons,
            List.intercalate_cons_cons, List.length_append, List.length_append,
            List.length_singleton]
          omega

/-- A source text is at least as large as what is read of it. -/
theorem volume_readLines_le (source : Text) :
    volume (readLines source) ≤ source.length + 1 := by
  have hlines := volume_numberedFrom_le 1 ((sourceLines source).map fields)
  have hfields := length_flatten_fields_le (sourceLines source)
  have hne : sourceLines source ≠ [] := by simp [sourceLines, Text.splitOn_eq]
  have hpieces := length_flatten_add_length (byte '\n') hne
  rw [← readLines_eq, List.length_map] at hlines
  rw [sourceLines, Text.splitOn_eq, List.intercalate_splitOn, ← Text.splitOn_eq,
    ← sourceLines] at hpieces
  omega

/-! ## What a draft holds -/

/-- A line that has been collected from lines that have been read: it starts
with one of their fields, and is no larger than they are. -/
structure Line.From (read : List Line) (line : Line) : Prop where
  head : ∃ l ∈ read, line.head ∈ l.head :: l.args
  args : line.args.length < volume read

/-- A draft of a method whose lines have been read. -/
structure Draft.From (read : List Line) (draft : Draft) : Prop where
  maxStack : 0 ≤ draft.maxStack.toInt
  maxLocals : 0 ≤ draft.maxLocals.toInt
  size : draft.body.size < volume read
  body : ∀ line ∈ draft.body, line.From read
  labels : ∀ entry ∈ draft.labels, entry.2 ≤ draft.body.size

/-- What the reader is in the middle of comes from lines that have been read. -/
def Mode.From (read : List Line) : Mode → Prop
  | .outside => True
  | .body draft => draft.From read
  | .cases draft head => draft.From read ∧ head.From read

/-- Everything that the reader holds comes from lines that have been read. -/
structure Progress.From (read : List Line) (p : Progress) : Prop where
  methods : ∀ m ∈ p.methods, ∃ draft : Draft, draft.From read ∧
    draft.finish = .ok m
  mode : p.mode.From read

variable {read more : List Line} {line part : Line} {draft draft' : Draft}
  {p p' : Progress}

theorem Line.From.append (h : line.From read) (more : List Line) :
    line.From (read ++ more) where
  head := by
    obtain ⟨l, hl, hhead⟩ := h.head
    exact ⟨l, List.mem_append_left more hl, hhead⟩
  args := by
    have := h.args
    rw [volume_append]
    omega

theorem Draft.From.append (h : draft.From read) (more : List Line) :
    draft.From (read ++ more) where
  maxStack := h.maxStack
  maxLocals := h.maxLocals
  size := by
    have := h.size
    rw [volume_append]
    omega
  body line hline := (h.body line hline).append more
  labels := h.labels

theorem Line.from_of_suffix (hline : line ∈ read)
    (hpart : part.head :: part.args <:+ line.head :: line.args) :
    part.From read where
  head := ⟨line, hline, hpart.subset List.mem_cons_self⟩
  args := by
    have hlength := hpart.length_le
    rw [List.length_cons, List.length_cons] at hlength
    have hvolume := le_volume_of_mem hline
    omega

theorem Draft.From.room (h : draft.From read) :
    draft.body.size + 1 < volume (read ++ [line]) := by
  have := h.size
  rw [volume_append, volume_singleton]
  omega

/-- A draft can take one more line as long as there is room for it. -/
theorem Draft.From.push (h : draft.From read)
    (hroom : draft.body.size + 1 < volume read) (hline : line.From read) :
    (draft.collect line).From read where
  maxStack := h.maxStack
  maxLocals := h.maxLocals
  size := by
    rw [Draft.collect, Array.size_push]
    exact hroom
  body l hl := by
    rcases Array.mem_push.mp hl with hl | rfl
    · exact h.body l hl
    · exact hline
  labels entry hentry := by
    rw [Draft.collect, Array.size_push]
    exact Nat.le_succ_of_le (h.labels entry hentry)

theorem Draft.From.of_header {owner : Text}
    (h : Draft.ofHeader owner line = .ok draft) (hline : line ∈ read) :
    draft.From read := by
  have hpos : 0 < volume read :=
    Nat.lt_of_le_of_lt (Nat.zero_le _)
      (Line.from_of_suffix hline List.suffix_rfl).args
  rw [Draft.ofHeader] at h
  split at h
  · cases h
  · split at h
    · split_ifs at h
      · cases h
      · cases h
        exact ⟨Int.le_refl _, Int.le_refl _, hpos, by simp, by simp⟩
    · cases h

theorem Draft.limit_eq_ok {args : List Text}
    (h : draft.limit args = .ok draft') :
    ∃ n : Int64, 0 ≤ n.toInt ∧
      (draft' = { draft with maxStack := n } ∨
        draft' = { draft with maxLocals := n }) := by
  unfold Draft.limit at h
  split at h
  · split at h
    · cases h
    · rename_i n _
      split_ifs at h with hneg
      · cases h
        exact ⟨n, Int.not_lt.mp hneg, .inl rfl⟩
      · cases h
        exact ⟨n, Int.not_lt.mp hneg, .inr rfl⟩
  · cases h

theorem Draft.From.limit {args : List Text} (h : draft.From read)
    (hlimit : draft.limit args = .ok draft') : draft'.From read := by
  obtain ⟨n, hn, rfl | rfl⟩ := Draft.limit_eq_ok hlimit
  · exact ⟨hn, h.maxLocals, h.size, h.body, h.labels⟩
  · exact ⟨h.maxStack, hn, h.size, h.body, h.labels⟩

theorem Draft.param_eq_ok {args : List Text}
    (h : draft.param args = .ok draft') :
    ∃ params, draft' = { draft with params := params } := by
  unfold Draft.param at h
  split at h
  · split at h
    · cases h
    · split_ifs at h
      split at h
      · cases h
      · obtain ⟨params, -, heq⟩ := bind_eq_ok_iff.mp h
        cases heq
        exact ⟨params, rfl⟩
  · cases h

theorem Draft.From.param {args : List Text} (h : draft.From read)
    (hparam : draft.param args = .ok draft') : draft'.From read := by
  obtain ⟨params, rfl⟩ := Draft.param_eq_ok hparam
  exact ⟨h.maxStack, h.maxLocals, h.size, h.body, h.labels⟩

/-! ## What a line does -/

theorem Line.cons_eq_of_ofFields? {number : Nat} {fields : List Text}
    (h : Line.ofFields? number fields = some line) :
    line.head :: line.args = fields := by
  cases fields with
  | nil => cases h
  | cons head args =>
      cases h
      rfl

theorem Progress.From.advanceOutside (hp : p.From read) (hline : line ∈ read)
    (h : advanceOutside p line = .ok p') : p'.From read := by
  rw [Assembly.advanceOutside] at h
  split_ifs at h with hclass hignored hmethod
  · split at h
    · cases h
      exact ⟨hp.methods, hp.mode⟩
    · cases h
  · cases h
    exact hp
  · obtain ⟨draft, hdraft, heq⟩ := bind_eq_ok_iff.mp h
    cases heq
    exact ⟨hp.methods, Draft.From.of_header hdraft hline⟩
  · cases h

/-- A line inside of a method, or the part of it after a label, keeps everything
in order, as long as there is room for one more instruction. -/
theorem Progress.From.advanceBody (hp : p.From read) (hdraft : draft.From read)
    (hroom : draft.body.size + 1 < volume read) (hline : line ∈ read)
    (hpart : part.head :: part.args <:+ line.head :: line.args)
    (h : advanceBody p draft part = .ok p') : p'.From read := by
  -- What is not a directive becomes a line of the body; of the directives, only
  -- the end makes a method of the draft.
  rw [Assembly.advanceBody] at h
  by_cases hend : part.head = text ".end"
  · rw [if_pos hend] at h
    obtain ⟨m, hm, heq⟩ := bind_eq_ok_iff.mp h
    cases heq
    refine ⟨fun m' hm' => ?_, trivial⟩
    rcases Array.mem_push.mp hm' with hm' | rfl
    · exact hp.methods m' hm'
    · exact ⟨draft, hdraft, hm⟩
  rw [if_neg hend] at h
  by_cases hlimit : part.head = text ".limit"
  · rw [if_pos hlimit] at h
    obtain ⟨draft', hdraft', heq⟩ := bind_eq_ok_iff.mp h
    cases heq
    exact ⟨hp.methods, hdraft.limit (atLine_eq_ok_iff.mp hdraft')⟩
  rw [if_neg hlimit] at h
  by_cases hparam : part.head = text ".param"
  · rw [if_pos hparam] at h
    obtain ⟨draft', hdraft', heq⟩ := bind_eq_ok_iff.mp h
    cases heq
    exact ⟨hp.methods, hdraft.param (atLine_eq_ok_iff.mp hdraft')⟩
  rw [if_neg hparam] at h
  by_cases hcatch : part.head = text ".catch"
  · rw [if_pos hcatch] at h
    cases h
    exact ⟨hp.methods, hdraft.maxStack, hdraft.maxLocals, hdraft.size,
      hdraft.body, hdraft.labels⟩
  rw [if_neg hcatch] at h
  split_ifs at h with hignored hcases hdirective hwide
  · cases h
    exact ⟨hp.methods, hdraft⟩
  · cases h
    exact ⟨hp.methods, hdraft, Line.from_of_suffix hline hpart⟩
  · cases h
  · split at h
    · cases h
    · rename_i wide hfields
      cases h
      have hsuffix : wide.head :: wide.args <:+ part.head :: part.args := by
        rw [Line.cons_eq_of_ofFields? hfields]
        exact List.suffix_cons _ _
      exact ⟨hp.methods,
        hdraft.push hroom (Line.from_of_suffix hline (hsuffix.trans hpart))⟩
  · cases h
    exact ⟨hp.methods, hdraft.push hroom (Line.from_of_suffix hline hpart)⟩

theorem Progress.From.append (h : p.From read) (more : List Line) :
    p.From (read ++ more) where
  methods m hm := by
    obtain ⟨draft, hdraft, hfinish⟩ := h.methods m hm
    exact ⟨draft, hdraft.append more, hfinish⟩
  mode := by
    have hmode := h.mode
    cases hp : p.mode with
    | outside => trivial
    | body draft =>
        rw [hp] at hmode
        exact Draft.From.append hmode more
    | cases draft head =>
        rw [hp] at hmode
        exact ⟨hmode.1.append more, hmode.2.append more⟩

/-- A label marks the next instruction. -/
theorem Draft.From.mark (h : draft.From read) (label : Text) :
    Draft.From read
      { draft with labels := (label, draft.body.size) :: draft.labels } :=
  ⟨h.maxStack, h.maxLocals, h.size, h.body,
    List.forall_mem_cons.mpr ⟨Nat.le_refl _, h.labels⟩⟩

/-- A line is taken in as it is, or what follows its label is taken into a
draft in which the label marks the next instruction. -/
theorem advanceLabelled_cases (h : advanceLabelled p draft line = .ok p') :
    (labelName? line.head = none ∧ advanceBody p draft line = .ok p') ∨
    ∃ label, labelName? line.head = some label ∧ ∃ marked : Draft,
      marked =
        { draft with labels := (label, draft.body.size) :: draft.labels } ∧
      ((line.args = [] ∧ p' = { p with mode := .body marked }) ∨
        ∃ head args, line.args = head :: args ∧
          advanceBody p marked ⟨line.number, head, args⟩ = .ok p') := by
  rw [advanceLabelled] at h
  cases hlabel : labelName? line.head with
  | none =>
      rw [hlabel] at h
      exact .inl ⟨rfl, h⟩
  | some label =>
      rw [hlabel] at h
      dsimp only at h
      split_ifs at h
      · cases h
      · refine .inr ⟨label, rfl, _, rfl, ?_⟩
        cases hargs : line.args with
        | nil =>
            rw [hargs] at h
            exact .inl ⟨rfl, (Except.ok.inj h).symm⟩
        | cons head args =>
            rw [hargs] at h
            exact .inr ⟨head, args, rfl, h⟩

theorem Progress.From.advanceLabelled (hp : p.From read)
    (hdraft : draft.From read) (hroom : draft.body.size + 1 < volume read)
    (hline : line ∈ read) (h : advanceLabelled p draft line = .ok p') :
    p'.From read := by
  rcases advanceLabelled_cases h with ⟨-, h⟩ |
    ⟨label, -, marked, rfl, ⟨-, rfl⟩ | ⟨head, args, hargs, h⟩⟩
  · exact hp.advanceBody hdraft hroom hline List.suffix_rfl h
  · exact ⟨hp.methods, hdraft.mark label⟩
  · refine hp.advanceBody (hdraft.mark label) hroom hline ?_ h
    rw [hargs]
    exact List.suffix_cons _ _

/-- The fields of a case line are added to the first line of its switch, which
takes no more than both lines do. -/
theorem Progress.From.advanceCases {head : Line} (hp : p.From read)
    (hdraft : draft.From read) (hhead : head.From read) (line : Line) :
    (advanceCases p draft head line).From (read ++ [line]) := by
  let joined : Line :=
    { head with args := head.args ++ bar :: line.head :: line.args }
  have hjoined : joined.From (read ++ [line]) := by
    refine ⟨(hhead.append [line]).head, ?_⟩
    have hargs : joined.args.length =
        head.args.length + (line.args.length + 2) := by
      simp [joined]
    have := hhead.args
    rw [volume_append, volume_singleton]
    omega
  rw [Assembly.advanceCases]
  split_ifs with hdefault
  · exact ⟨(hp.append [line]).methods,
      (hdraft.append [line]).push hdraft.room hjoined⟩
  · exact ⟨(hp.append [line]).methods, hdraft.append [line], hjoined⟩

/-- Taking in a line keeps everything in order. -/
theorem Progress.From.advance (hp : p.From read) (h : advance p line = .ok p') :
    p'.From (read ++ [line]) := by
  have hline : line ∈ read ++ [line] := by simp
  have hmode := hp.mode
  rw [Assembly.advance] at h
  cases hp' : p.mode with
  | outside =>
      rw [hp'] at h
      exact (hp.append [line]).advanceOutside hline h
  | body draft =>
      rw [hp'] at h hmode
      have hdraft : draft.From read := hmode
      exact (hp.append [line]).advanceLabelled (hdraft.append [line])
        hdraft.room hline h
  | cases draft head =>
      rw [hp'] at h hmode
      cases h
      exact hp.advanceCases hmode.1 hmode.2 line

/-- Reading lines keeps everything in order. -/
theorem Progress.From.foldlM {lines : List Line} (hp : p.From read)
    (h : lines.foldlM Assembly.advance p = .ok p') :
    p'.From (read ++ lines) := by
  induction lines generalizing read p with
  | nil =>
      cases h
      rwa [List.append_nil]
  | cons line lines ih =>
      rw [List.foldlM_cons] at h
      obtain ⟨p₁, hline, hlines⟩ := bind_eq_ok_iff.mp h
      have hrest := ih (hp.advance hline) hlines
      rwa [List.append_assoc, List.singleton_append] at hrest

/-- Every method of a source text is a finished draft of lines of that text. -/
theorem exists_draft_of_parse {source : Text} {ms : List Method}
    (h : parse source = .ok ms) :
    ∀ m ∈ ms, ∃ draft : Draft, draft.From (readLines source) ∧
      draft.finish = .ok m := by
  obtain ⟨p, hread, hfinish⟩ := bind_eq_ok_iff.mp h
  have hstart : ({} : Progress).From [] := ⟨by simp, trivial⟩
  have hp := hstart.foldlM hread
  rw [List.nil_append] at hp
  rw [Progress.finish] at hfinish
  split at hfinish
  · cases hfinish
    intro m hm
    exact hp.methods m (by simpa using hm)
  · cases hfinish
  · cases hfinish

end Assembly
end Nullness
