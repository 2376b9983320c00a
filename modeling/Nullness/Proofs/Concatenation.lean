import Nullness.Proofs.Continuation
import Nullness.Proofs.Drafts

/-!
# Source texts that follow one another

Two source texts, one after the other, hold the methods of the first and then
those of the second.  Nothing of the first text reaches into the second but the
class that is in force at its end: it owns the methods of the second text up to
the first class directive there.

Which lines are class directives, and which start methods, depends on where they
stand: a line in the body of a method, or among the cases of a switch, is
something else.  A `Region` says where a line stands, and follows from the lines
before, without assembling them.
-/

namespace Nullness
namespace Assembly

/-! ## Regions of a source text -/

/-- Where a line stands: between methods, in the body of a method, or among the
cases of a switch. -/
inductive Region where
  | outside
  | body
  | cases
  deriving DecidableEq, Repr

/-- The first field of a line in a method, without the label that the line may
start with. -/
def Line.statement? (line : Line) : Option Text :=
  if (labelName? line.head).isSome then line.args.head? else some line.head

/-- Where the next line stands, after a directive or a mnemonic in a method. -/
def Region.afterWord (word : Text) : Region :=
  if word = text ".end" then .outside
  else if switchMnemonics.contains word then .cases
  else .body

/-- Where the next line stands. -/
def Region.next : Region → Line → Region
  | .outside, line => if line.head = text ".method" then .body else .outside
  | .body, line => line.statement?.elim .body Region.afterWord
  | .cases, line => if isDefaultCase line then .body else .cases

/-- The lines between methods, from a line on that stands in the given
region. -/
def outerFrom : Region → List Line → List Line
  | _, [] => []
  | .outside, line :: lines =>
    line :: outerFrom (Region.outside.next line) lines
  | region, line :: lines => outerFrom (region.next line) lines

/-- The lines of a source text that stand between methods. -/
def outerLines (source : Text) : List Line :=
  outerFrom .outside (readLines source)

/-- The class in force at the end of a source text, which the last class
directive names. -/
def lastClass (source : Text) : Text :=
  ((outerLines source).filterMap Line.className?).getLastD []

/-- The number of methods that start before the first of the lines that names a
class. -/
def startedBeforeClass (lines : List Line) : Nat :=
  (lines.takeWhile (·.className?.isNone)).countP (·.head = text ".method")

/-- The number of methods of a source text that stand before its first class
directive. -/
def methodsBeforeClass (source : Text) : Nat :=
  startedBeforeClass (outerLines source)

/-! ## What the reader holds -/

def Mode.region : Mode → Region
  | .outside => .outside
  | .body _ => .body
  | .cases _ _ => .cases

theorem Mode.region_eq_outside_iff {mode : Mode} :
    mode.region = .outside ↔ mode = .outside := by
  cases mode <;> simp [region]

/-- The owners of the methods read so far, the unfinished one included. -/
def Progress.owners (p : Progress) : List Text :=
  p.methods.toList.map (·.owner) ++
    match p.mode with
    | .outside => []
    | .body draft | .cases draft _ => [draft.owner]

/-- The owners of the methods that lines between methods start. -/
def ownersFrom (owner : Text) : List Line → List Text
  | [] => []
  | line :: lines =>
    match line.className? with
    | some name => ownersFrom name lines
    | none =>
      if line.head = text ".method" then owner :: ownersFrom owner lines
      else ownersFrom owner lines

variable {p p' : Progress} {draft : Draft} {line : Line}

theorem owner_of_finish {m : Method} (h : draft.finish = .ok m) :
    m.owner = draft.owner := by
  obtain ⟨insns, handlers, -, -, rfl⟩ := Draft.finish_eq_ok_iff.mp h
  rfl

/-- A line of a body ends the method, starts a switch, or is taken into the
draft, which keeps the lines that it has. -/
theorem advanceBody_cases (h : advanceBody p draft line = .ok p') :
    (line.head = text ".end" ∧ ∃ m : Method, draft.finish = .ok m ∧
      p' = { p with methods := p.methods.push m, mode := .outside }) ∨
    line.head ≠ text ".end" ∧
      ((switchMnemonics.contains line.head = true ∧
          p' = { p with mode := .cases draft line }) ∨
        (switchMnemonics.contains line.head = false ∧ ∃ draft' : Draft,
          p' = { p with mode := .body draft' } ∧ draft'.owner = draft.owner ∧
            ∀ l ∈ draft.body, l ∈ draft'.body)) := by
  by_cases hswitch : switchMnemonics.contains line.head = true
  · -- A switch is none of the directives that are looked for first.
    have hother : ∀ word ∈ switchMnemonics,
        word ≠ text ".end" ∧ word ≠ text ".limit" ∧ word ≠ text ".param" ∧
          word ≠ text ".catch" ∧ ignoredInside.contains word ≠ true := by
      decide
    obtain ⟨hend, hlimit, hparam, hcatch, hignored⟩ :=
      hother line.head (List.contains_iff_mem.mp hswitch)
    rw [advanceBody, if_neg hend, if_neg hlimit, if_neg hparam, if_neg hcatch,
      if_neg hignored, if_pos hswitch] at h
    exact .inr ⟨hend, .inl ⟨hswitch, (Except.ok.inj h).symm⟩⟩
  · by_cases hend : line.head = text ".end"
    · rw [advanceBody, if_pos hend] at h
      obtain ⟨m, hm, heq⟩ := bind_eq_ok_iff.mp h
      exact .inl ⟨hend, m, hm, (Except.ok.inj heq).symm⟩
    · refine .inr ⟨hend, .inr ⟨by simpa using hswitch, ?_⟩⟩
      rw [advanceBody, if_neg hend] at h
      split_ifs at h with hlimit hparam hcatch hignored hdirective hwide
      · obtain ⟨draft', hdraft, heq⟩ := bind_eq_ok_iff.mp h
        obtain ⟨n, -, rfl | rfl⟩ :=
          Draft.limit_eq_ok (atLine_eq_ok_iff.mp hdraft)
        · exact ⟨_, (Except.ok.inj heq).symm, rfl, fun _ => id⟩
        · exact ⟨_, (Except.ok.inj heq).symm, rfl, fun _ => id⟩
      · obtain ⟨draft', hdraft, heq⟩ := bind_eq_ok_iff.mp h
        obtain ⟨params, rfl⟩ := Draft.param_eq_ok (atLine_eq_ok_iff.mp hdraft)
        exact ⟨_, (Except.ok.inj heq).symm, rfl, fun _ => id⟩
      · exact ⟨_, (Except.ok.inj h).symm, rfl, fun _ => id⟩
      · exact ⟨_, (Except.ok.inj h).symm, rfl, fun _ => id⟩
      · cases h
      · cases hpart : Line.ofFields? line.number line.args with
        | none =>
            rw [hpart] at h
            cases h
        | some part =>
            rw [hpart] at h
            exact ⟨_, (Except.ok.inj h).symm, rfl,
              fun _ => Array.mem_push_of_mem part⟩
      · exact ⟨_, (Except.ok.inj h).symm, rfl,
          fun _ => Array.mem_push_of_mem line⟩

/-- Where the reader is, the class in force, and the owners of the methods so
far. -/
structure Progress.Stands (p : Progress) (region : Region) (owner : Text)
    (owners : List Text) : Prop where
  region : p.mode.region = region
  owner : p.owner = owner
  owners : p.owners = owners

/-- The owners of the methods read so far and of a draft. -/
def Progress.ownersWith (p : Progress) (draft : Draft) : List Text :=
  p.methods.toList.map (·.owner) ++ [draft.owner]

theorem stands_of_advanceBody (h : advanceBody p draft line = .ok p') :
    p'.Stands (Region.afterWord line.head) p.owner (p.ownersWith draft) := by
  rcases advanceBody_cases h with ⟨hend, m, hm, rfl⟩ |
    ⟨hend, ⟨hswitch, rfl⟩ | ⟨hswitch, draft', rfl, howner, -⟩⟩
  · rw [Region.afterWord, if_pos hend]
    refine ⟨rfl, rfl, ?_⟩
    simp [Progress.owners, Progress.ownersWith, owner_of_finish hm]
  · rw [Region.afterWord, if_neg hend, if_pos hswitch]
    exact ⟨rfl, rfl, rfl⟩
  · rw [Region.afterWord, if_neg hend, hswitch]
    refine ⟨rfl, rfl, ?_⟩
    simp [Progress.owners, Progress.ownersWith, howner]

theorem stands_of_advanceLabelled (h : advanceLabelled p draft line = .ok p') :
    p'.Stands (Region.body.next line) p.owner (p.ownersWith draft) := by
  rw [Region.next]
  rcases advanceLabelled_cases h with ⟨hlabel, h⟩ |
    ⟨label, hlabel, marked, rfl, ⟨hargs, rfl⟩ | ⟨head, args, hargs, h⟩⟩
  · have hstatement : line.statement? = some line.head := by
      simp [Line.statement?, hlabel]
    rw [hstatement]
    exact stands_of_advanceBody h
  · have hstatement : line.statement? = none := by
      simp [Line.statement?, hlabel, hargs]
    rw [hstatement]
    exact ⟨rfl, rfl, rfl⟩
  · have hstatement : line.statement? = some head := by
      simp [Line.statement?, hlabel, hargs]
    rw [hstatement]
    exact stands_of_advanceBody h

/-- A line in a method changes neither the class in force nor the owners. -/
theorem stands_of_advance_inside (h : advance p line = .ok p')
    (hmode : p.mode.region ≠ .outside) :
    p'.Stands (p.mode.region.next line) p.owner p.owners := by
  rw [Progress.owners]
  rw [advance] at h
  cases hp : p.mode with
  | outside => exact absurd (congrArg Mode.region hp) hmode
  | body draft =>
      rw [hp] at h
      exact stands_of_advanceLabelled h
  | cases draft head =>
      rw [hp] at h
      cases h
      rw [advanceCases, Mode.region, Region.next]
      split_ifs
      · exact ⟨rfl, rfl, rfl⟩
      · exact ⟨rfl, rfl, rfl⟩

theorem owner_of_ofHeader {owner : Text}
    (h : Draft.ofHeader owner line = .ok draft) :
    draft.owner = owner := by
  rw [Draft.ofHeader] at h
  split at h
  · cases h
  · split at h
    · split_ifs at h
      · cases h
      · cases h
        rfl
    · cases h

/-- A line between methods names the class in force, or starts a method of that
class, or does neither. -/
theorem stands_of_advance_outside (h : advance p line = .ok p')
    (hmode : p.mode = .outside) :
    p'.Stands (Region.outside.next line) (line.className?.getD p.owner)
      (p.owners ++ ownersFrom p.owner [line]) := by
  rw [advance, hmode] at h
  dsimp only at h
  rw [advanceOutside] at h
  simp only [Region.next, ownersFrom, Line.className?]
  by_cases hclass : classDirectives.contains line.head = true
  · have hmethod : line.head ≠ text ".method" := by
      intro hmethod
      rw [hmethod] at hclass
      exact absurd hclass (by decide)
    rw [if_pos hclass] at h
    rw [if_pos hclass, if_neg hmethod]
    cases hname : line.args.getLast? with
    | none =>
        rw [hname] at h
        cases h
    | some name =>
        rw [hname] at h
        cases h
        exact ⟨congrArg Mode.region hmode, rfl, (List.append_nil _).symm⟩
  · rw [if_neg hclass] at h
    rw [if_neg hclass]
    by_cases hmethod : line.head = text ".method"
    · have hignored : ignoredOutside.contains line.head ≠ true := by
        rw [hmethod]
        decide
      rw [if_neg hignored, if_pos hmethod] at h
      obtain ⟨draft, hdraft, heq⟩ := bind_eq_ok_iff.mp h
      cases heq
      rw [if_pos hmethod]
      refine ⟨rfl, rfl, ?_⟩
      simp [Progress.owners, hmode, owner_of_ofHeader hdraft, hmethod]
    · rw [if_neg hmethod] at h
      split_ifs at h
      · cases h
        rw [if_neg hmethod]
        refine ⟨congrArg Mode.region hmode, rfl, ?_⟩
        simp [hmethod]
      · cases h

/-! ## What a whole text leaves -/

theorem ownersFrom_cons (owner : Text) (line : Line) (lines : List Line) :
    ownersFrom owner (line :: lines) =
      ownersFrom owner [line] ++
        ownersFrom (line.className?.getD owner) lines := by
  simp only [ownersFrom]
  cases line.className? with
  | some name => rfl
  | none =>
      dsimp only
      split_ifs <;> rfl

theorem outerFrom_cons_of_ne {region : Region} (h : region ≠ .outside)
    (line : Line) (lines : List Line) :
    outerFrom region (line :: lines) = outerFrom (region.next line) lines := by
  cases region with
  | outside => exact absurd rfl h
  | body => rfl
  | cases => rfl

theorem getLastD_className? (owner : Text) (line : Line) (lines : List Line) :
    ((line :: lines).filterMap Line.className?).getLastD owner =
      (lines.filterMap Line.className?).getLastD
        (line.className?.getD owner) := by
  rw [List.filterMap_cons]
  cases line.className? with
  | none => rfl
  | some name => exact List.getLastD_cons ..

/-- After some lines, the class in force is the last one that was named between
methods, and every method belongs to the class that was in force where it
started. -/
theorem owners_of_foldlM {lines : List Line}
    (h : lines.foldlM advance p = .ok p') :
    p'.owner =
      ((outerFrom p.mode.region lines).filterMap Line.className?).getLastD
        p.owner ∧
      p'.owners = p.owners ++
        ownersFrom p.owner (outerFrom p.mode.region lines) := by
  induction lines generalizing p with
  | nil =>
      cases h
      simp [outerFrom, ownersFrom]
  | cons line lines ih =>
      rw [List.foldlM_cons] at h
      obtain ⟨q, hstep, hrest⟩ := bind_eq_ok_iff.mp h
      obtain ⟨howner, howners⟩ := ih hrest
      by_cases hregion : p.mode.region = .outside
      · have hstands :=
          stands_of_advance_outside hstep
            (Mode.region_eq_outside_iff.mp hregion)
        rw [hstands.region, hstands.owner] at howner howners
        rw [hregion, outerFrom, getLastD_className?, ownersFrom_cons, howner,
          howners, hstands.owners, List.append_assoc]
        exact ⟨rfl, rfl⟩
      · have hstands := stands_of_advance_inside hstep hregion
        rw [hstands.region, hstands.owner] at howner howners
        rw [outerFrom_cons_of_ne hregion, howner, howners, hstands.owners]
        exact ⟨rfl, rfl⟩

section Names

variable {lines : List Line}
  (hnames : ∀ line ∈ lines, ∀ name ∈ line.className?, name ≠ [])

include hnames

theorem ne_nil_of_mem_ownersFrom {owner : Text} (howner : owner ≠ []) :
    ∀ name ∈ ownersFrom owner lines, name ≠ [] := by
  induction lines generalizing owner with
  | nil => simp [ownersFrom]
  | cons line lines ih =>
      rw [List.forall_mem_cons] at hnames
      rw [ownersFrom]
      cases hname : line.className? with
      | some name => exact ih hnames.2 (hnames.1 name hname)
      | none =>
          dsimp only
          split_ifs
          · exact List.forall_mem_cons.mpr ⟨howner, ih hnames.2 howner⟩
          · exact ih hnames.2 howner

/-- Before the first class directive the methods belong to the class in force at
the start, and after it to classes with names. -/
theorem ownersFrom_eq (owner : Text) :
    ∃ rest, (∀ name ∈ rest, name ≠ []) ∧
      ownersFrom owner lines =
        List.replicate (startedBeforeClass lines) owner ++ rest := by
  induction lines with
  | nil => exact ⟨[], by simp, rfl⟩
  | cons line lines ih =>
      rw [List.forall_mem_cons] at hnames
      rw [ownersFrom, startedBeforeClass]
      cases hname : line.className? with
      | some name =>
          refine ⟨ownersFrom name lines, ?_, ?_⟩
          · exact ne_nil_of_mem_ownersFrom hnames.2 (hnames.1 name hname)
          · simp [hname]
      | none =>
          obtain ⟨rest, hrest, heq⟩ := ih hnames.2
          refine ⟨rest, hrest, ?_⟩
          have htake : (line :: lines).takeWhile (·.className?.isNone) =
              line :: lines.takeWhile (·.className?.isNone) := by
            simp [hname]
          rw [startedBeforeClass] at heq
          rw [htake, heq]
          by_cases hmethod : line.head = text ".method"
          · simp [hmethod, List.replicate_succ]
          · simp [hmethod]

end Names

/-! ## Fields and lines -/

theorem ne_nil_of_mem_finishField {current t : Text}
    (h : t ∈ finishField current) :
    t ≠ [] := by
  rw [finishField] at h
  split_ifs at h with hempty
  · cases h
  · rw [List.mem_singleton.mp h]
    simpa using hempty

theorem ne_nil_of_mem_fieldsFrom {quoting : Quoting} {current rest t : Text}
    (h : t ∈ fieldsFrom quoting current rest) : t ≠ [] := by
  fun_induction fieldsFrom quoting current rest with
  | case1 => exact ne_nil_of_mem_finishField h
  | case3 => cases h
  | case4 current b rest hquote hcomment hblank ih =>
      rcases List.mem_append.mp h with h | h
      · exact ne_nil_of_mem_finishField h
      · exact ih h
  | case2 | case5 | case6 | case7 | case8 | case9 =>
      rename_i ih
      exact ih h

theorem mem_numberedFrom {number : Nat} {lines : List (List Text)}
    (h : line ∈ numberedFrom number lines) :
    line.head :: line.args ∈ lines := by
  induction lines generalizing number with
  | nil => cases h
  | cons fields lines ih =>
      rw [numberedFrom] at h
      rcases List.mem_append.mp h with h | h
      · rw [Line.cons_eq_of_ofFields? (Option.mem_toList.mp h)]
        exact List.mem_cons_self
      · exact List.mem_cons_of_mem _ (ih h)

/-- No field is empty, so that a class that is named has a name. -/
theorem className?_ne_nil {source name : Text} (hline : line ∈ readLines source)
    (hname : line.className? = some name) : name ≠ [] := by
  rw [Line.className?] at hname
  split_ifs at hname
  rw [readLines_eq] at hline
  obtain ⟨t, -, ht⟩ := List.mem_map.mp (mem_numberedFrom hline)
  have hmem : name ∈ fields t := by
    rw [ht]
    exact List.mem_cons_of_mem _ (List.mem_of_getLast? hname)
  exact ne_nil_of_mem_fieldsFrom hmem

theorem mem_of_mem_outerFrom {region : Region} {lines : List Line}
    (h : line ∈ outerFrom region lines) : line ∈ lines := by
  induction lines generalizing region with
  | nil => cases region <;> cases h
  | cons first lines ih =>
      by_cases hregion : region = .outside
      · rw [hregion, outerFrom] at h
        rcases List.mem_cons.mp h with rfl | h
        · exact List.mem_cons_self
        · exact List.mem_cons_of_mem first (ih h)
      · rw [outerFrom_cons_of_ne hregion] at h
        exact List.mem_cons_of_mem first (ih h)

theorem numberedFrom_add {c : Preceding} {n : Nat} (hc : c.number = (· + n))
    (number : Nat) (lines : List (List Text)) :
    numberedFrom (number + n) lines =
      (numberedFrom number lines).map c.line := by
  induction lines generalizing number with
  | nil => rfl
  | cons fields lines ih =>
      have hline : (Line.ofFields? number fields).map c.line =
          Line.ofFields? (number + n) fields := by
        cases fields with
        | nil => rfl
        | cons head args => simp [Line.ofFields?, Preceding.line, hc]
      rw [numberedFrom, numberedFrom, List.map_append, ← ih, Nat.add_right_comm,
        ← hline]
      cases Line.ofFields? number fields <;> rfl

/-- The lines of two texts that follow one another. -/
theorem readLines_append (c : Preceding) (a b : Text)
    (hc : c.number = (· + (sourceLines a).length)) :
    readLines (a ++ byte '\n' :: b) =
      readLines a ++ (readLines b).map c.line := by
  have hlines : sourceLines (a ++ byte '\n' :: b) =
      sourceLines a ++ sourceLines b := by
    simp only [sourceLines, Text.splitOn_eq]
    exact List.splitOn_append_cons_self a b
  rw [readLines_eq, readLines_eq, readLines_eq, hlines, List.map_append,
    numberedFrom_append, List.length_map, numberedFrom_add hc]

/-! ## Two texts -/

/-- The owner that a method has after a text with the given class in force. -/
def adopt (owner name : Text) : Text := if name = [] then owner else name

theorem exists_progress_of_parse {a : Text} {ms : List Method}
    (h : parse a = .ok ms) :
    ∃ p, (readLines a).foldlM advance {} = .ok p ∧ p.mode = .outside ∧
      p.methods.toList = ms ∧ p.owner = lastClass a ∧
      ms.map (·.owner) = ownersFrom [] (outerLines a) := by
  obtain ⟨p, hp, hfinish⟩ := bind_eq_ok_iff.mp h
  obtain ⟨howner, howners⟩ := owners_of_foldlM hp
  rw [Progress.finish] at hfinish
  cases hmode : p.mode with
  | outside =>
      rw [hmode] at hfinish
      cases hfinish
      refine ⟨p, hp, hmode, rfl, howner, ?_⟩
      rw [Progress.owners, hmode, List.append_nil] at howners
      exact howners
  | body draft =>
      rw [hmode] at hfinish
      cases hfinish
  | cases draft head =>
      rw [hmode] at hfinish
      cases hfinish

/-- What a text that has been assembled is for a text after it. -/
def preceding (a : Text) (ms : List Method) : Preceding where
  number := (· + (sourceLines a).length)
  methods := ms
  owner := adopt (lastClass a)

variable {a b : Text} {ms ms' : List Method}

theorem keeps_preceding (hline : line ∈ readLines b) :
    (preceding a ms).Keeps line :=
  fun _ hname => if_neg (className?_ne_nil hline hname)

/-- A text after another one that can be assembled is read as it is read alone,
further down. -/
theorem parse_append (h : parse a = .ok ms) (b : Text) :
    parse (a ++ byte '\n' :: b) =
      carry (· + (sourceLines a).length) (fun ms' =>
        ms ++ ms'.map (preceding a ms).method) (parse b) := by
  obtain ⟨p, hp, hmode, hmethods, howner, -⟩ := exists_progress_of_parse h
  have hstart : p = (preceding a ms).progress {} := by
    obtain ⟨owner, methods, mode⟩ := p
    simp_all [Preceding.progress, Preceding.mode, preceding, adopt, ← hmethods]
  rw [parse, readLines_append (preceding a ms) a b rfl, List.foldlM_append, hp]
  change (List.foldlM advance p _ >>= Progress.finish) = _
  rw [hstart]
  exact carry_bind (Preceding.foldlM_progress _ {} fun line hline =>
    keeps_preceding hline) fun q => Preceding.finish_progress _ q

/-- Of the methods of a text, those before its first class directive get another
owner after a text with a class in force. -/
theorem map_method_eq (h : parse b = .ok ms') :
    ms'.map (preceding a ms).method =
      (ms'.take (methodsBeforeClass b)).map (fun m =>
        { m with owner := lastClass a }) ++
        ms'.drop (methodsBeforeClass b) := by
  obtain ⟨-, -, -, -, -, howners⟩ := exists_progress_of_parse h
  have hnames : ∀ line ∈ outerLines b, ∀ name ∈ line.className?, name ≠ [] :=
    fun line hline name hname =>
      className?_ne_nil (mem_of_mem_outerFrom hline) hname
  obtain ⟨named, hnamed, heq⟩ := ownersFrom_eq hnames []
  rw [heq, ← methodsBeforeClass] at howners
  -- The owners are empty up to the first class directive and not empty after
  -- it.
  have hbefore : ∀ m ∈ ms'.take (methodsBeforeClass b), m.owner = [] := by
    intro m hm
    have hmem := List.mem_map_of_mem (f := (·.owner)) hm
    rw [List.map_take, howners, List.take_left' List.length_replicate] at hmem
    exact List.eq_of_mem_replicate hmem
  have hafter : ∀ m ∈ ms'.drop (methodsBeforeClass b), m.owner ≠ [] := by
    intro m hm
    have hmem := List.mem_map_of_mem (f := (·.owner)) hm
    rw [List.map_drop, howners, List.drop_left' List.length_replicate] at hmem
    exact hnamed m.owner hmem
  conv_lhs =>
    rw [← List.take_append_drop (methodsBeforeClass b) ms', List.map_append]
  congr 1
  · apply List.map_congr_left
    intro m hm
    have howner : (preceding a ms).owner m.owner = lastClass a :=
      if_pos (hbefore m hm)
    rw [Preceding.method, howner]
  · refine (List.map_congr_left ?_).trans (List.map_id _)
    intro m hm
    have howner : (preceding a ms).owner m.owner = m.owner :=
      if_neg (hafter m hm)
    rw [Preceding.method, howner]
    rfl

/-- Two source texts that follow one another.  If the first one can be
assembled, both can be assembled together exactly if the second one can.  The
methods are those of the first text and then those of the second one, of which
the ones before its first class directive belong to the last class of the first
text.  An error of the second text is reported further down, by the number of
lines of the first. -/
theorem parse_concatenation (h : parse a = .ok ms) (b : Text) :
    ((∃ all, parse (a ++ byte '\n' :: b) = .ok all) ↔
      ∃ ms', parse b = .ok ms') ∧
    (∀ ms', parse b = .ok ms' →
      parse (a ++ byte '\n' :: b) =
        .ok (ms ++ ((ms'.take (methodsBeforeClass b)).map
          (fun m => { m with owner := lastClass a }) ++
            ms'.drop (methodsBeforeClass b)))) ∧
    ∀ e, parse b = .error (.error e) → ∃ e' rest,
      parse (a ++ byte '\n' :: b) = .error (.error e') ∧
      e.message = text "syntax error: line " ++ Text.ofNat e.line ++ rest ∧
      e'.message = text "syntax error: line " ++
        Text.ofNat (e.line + (sourceLines a).length) ++ rest := by
  rw [parse_append h b]
  refine ⟨?_, ?_, ?_⟩
  · cases parse b with
    | error failure => simp [carry]
    | ok ms' => simp
  · intro ms' hb
    rw [hb, carry_ok, map_method_eq hb]
  · intro e hb
    refine ⟨e.renumber (· + (sourceLines a).length),
      text ": " ++ e.cause.message, ?_, ?_, ?_⟩
    · rw [hb]
      rfl
    · simp [SyntaxError.message]
    · simp [SyntaxError.message, SyntaxError.renumber]

/-- A method without instructions. -/
def bodiless (owner name : String) : Method where
  owner := text owner
  name := text name
  desc := text "()V"
  isStatic := true
  maxStack := 0
  maxLocals := 0
  instructions := []
  handlers := []
  params := []

/-- A text with a class and a method of it. -/
def leadingText : Text :=
  text ".class A\n.method static f()V\n.end method"

/-- A text with a method before and a method after its class. -/
def trailingText : Text :=
  text (".method static g()V\n.end method\n.interface B\n"
    ++ ".method static h()V\n.end method")

/-- A text with a method that does not end. -/
def brokenText : Text := text ".method static g()V\nreturn"

/-- The first method of the second text goes to the class of the first text, and
the line of an error moves down by three. -/
theorem parse_concatenation_leadingText :
    parse leadingText = .ok [bodiless "A" "f"] ∧
      parse trailingText = .ok [bodiless "" "g", bodiless "B" "h"] ∧
      parse (leadingText ++ byte '\n' :: trailingText) =
        .ok [bodiless "A" "f", bodiless "A" "g", bodiless "B" "h"] ∧
      parse brokenText = .error (.error ⟨1, .noEnd (text "g")⟩) ∧
      ∃ e, parse (leadingText ++ byte '\n' :: brokenText) = .error (.error e) ∧
        e.message =
          text "syntax error: line 4: method g has no .end method" := by
  have hleading : parse leadingText = .ok [bodiless "A" "f"] := by
    decide +kernel
  have htrailing : parse trailingText =
      .ok [bodiless "" "g", bodiless "B" "h"] := by
    decide +kernel
  have hbroken : parse brokenText = .error (.error ⟨1, .noEnd (text "g")⟩) := by
    decide +kernel
  have hclass : lastClass leadingText = text "A" := by
    decide +kernel
  have hcount : methodsBeforeClass trailingText = 1 := by
    decide +kernel
  obtain ⟨-, hok, -⟩ := parse_concatenation hleading trailingText
  obtain ⟨-, -, herror⟩ := parse_concatenation hleading brokenText
  refine ⟨hleading, htrailing, ?_, hbroken, ?_⟩
  · rw [hok _ htrailing, hclass, hcount]
    rfl
  · obtain ⟨e, rest, he, hmessage, hmessage'⟩ := herror _ hbroken
    refine ⟨e, he, ?_⟩
    have hshown : text "syntax error: line " ++ Text.ofNat 1 ++
        text ": method g has no .end method" =
          SyntaxError.message ⟨1, .noEnd (text "g")⟩ := by
      decide +kernel
    have hlines : (sourceLines leadingText).length = 3 := by
      decide +kernel
    rw [hmessage', hlines, ← List.append_cancel_left (hshown.trans hmessage)]
    decide +kernel

end Assembly
end Nullness
