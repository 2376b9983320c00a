import Nullness.Proofs.Concatenation
import Nullness.Proofs.TransferRules

/-!
# How reading a source text can fail

A source text that cannot be assembled is refused with an error, which names one
of its lines.  Two mistakes are not guarded against.  The mark for wide operands
before a switch hides the switch from the reader, which then does not collect
its cases; a switch without cases has no default case to look at, and the reader
crashes.  And the largest index is taken for that of a parameter, although no
list can be long enough to have an entry for it; the reader goes on adding
entries until there is no room left.

What the reader holds, when it is done with some lines, is numbered like these
lines, and a switch without cases can only come from a mark.  `Reports` says of
a part of the reader that it keeps to this, whether it succeeds or fails.  The
other way round, neither of the two mistakes is ever passed.
-/

namespace Nullness
namespace Assembly

/-! ## Operands -/

/-- An operation on a line succeeds or has an error to report. -/
def Clean {α : Type} : Except (Failure Cause) α → Prop
  | .error .crash | .error .exhausted => False
  | _ => True

section Operands

variable {α β : Type} {labels : Labels} {mnemonic : Text} {args : List Text}

theorem clean_ok (a : α) : Clean (.ok a) := trivial

theorem clean_error (cause : Cause) :
    Clean (.error (.error cause) : Except _ α) := trivial

theorem Clean.bind {x : Except (Failure Cause) α}
    {f : α → Except (Failure Cause) β} (hx : Clean x)
    (hf : ∀ a, Clean (f a)) : Clean (x >>= f) := by
  rcases x with (cause | _ | _) | a
  · trivial
  · exact hx
  · exact hx
  · exact hf a

theorem clean_target (labels : Labels) (allowEnd : Bool) (label : Text) :
    Clean (labels.target allowEnd label) := by
  rw [Labels.target]
  split
  · exact clean_error _
  · split_ifs
    · exact clean_error _
    · exact clean_ok _

theorem clean_integer (mnemonic operand : Text) :
    Clean (integer mnemonic operand) := by
  rw [integer]
  split
  · exact clean_ok _
  · exact clean_error _

theorem clean_defaultTarget (labels : Labels) (mnemonic : Text)
    (fields : List Text) :
    Clean (defaultTarget labels mnemonic fields) := by
  rw [defaultTarget]
  split
  · split_ifs
    · exact clean_target _ _ _
    · exact clean_error _
  · exact clean_error _

theorem clean_tableTargets (labels : Labels) (cases : List (List Text)) :
    Clean (tableTargets labels cases) := by
  induction cases with
  | nil => exact clean_ok _
  | cons fields cases ih =>
      exact (clean_target _ _ _).bind fun _ => ih.bind fun _ => clean_ok _

theorem clean_lookupCase (labels : Labels) (fields : List Text) :
    Clean (lookupCase labels fields) := by
  rw [lookupCase]
  split
  · split
    · exact clean_error _
    · exact (clean_target _ _ _).bind fun _ => clean_ok _
  · exact clean_error _

theorem clean_lookupCases (labels : Labels) (cases : List (List Text)) :
    Clean (lookupCases labels cases) := by
  induction cases with
  | nil => exact clean_ok _
  | cons fields cases ih =>
      exact (clean_lookupCase labels fields).bind fun _ => ih.bind fun _ =>
        clean_ok _

theorem clean_tableRange (operands : List Text) :
    Clean (tableRange operands) := by
  unfold tableRange
  split
  · split
    · split_ifs
      · exact clean_error _
      · exact clean_ok _
    · exact clean_error _
  · exact clean_error _

theorem exists_splitBars_of_mem (h : bar ∈ args) :
    ∃ operands case cases, splitBars args = operands :: case :: cases := by
  obtain ⟨before, after, rfl⟩ := List.append_of_mem h
  obtain ⟨operands, groups, hbefore⟩ :=
    List.exists_cons_of_ne_nil (List.splitOn_ne_nil bar before)
  obtain ⟨last, rest, hafter⟩ :=
    List.exists_cons_of_ne_nil (List.splitOn_ne_nil bar after)
  rw [splitBars_eq, List.splitOn_append_cons_self, hbefore, hafter]
  rcases groups with _ | ⟨group, groups⟩
  · exact ⟨operands, last, rest, rfl⟩
  · exact ⟨operands, group, groups ++ last :: rest, rfl⟩

/-- A switch with a bar has a default case to look at. -/
theorem clean_switch (h : bar ∈ args) (isTable : Bool) :
    Clean (switch labels isTable mnemonic args) := by
  unfold switch
  split
  · refine (clean_defaultTarget _ _ _).bind fun _ => ?_
    split_ifs
    · exact (clean_tableRange _).bind fun _ =>
        (clean_tableTargets _ _).bind fun _ => clean_ok _
    · exact (clean_lookupCases _ _).bind fun _ => clean_ok _
  · rename_i hgroups
    obtain ⟨operands, case, cases, hsplit⟩ := exists_splitBars_of_mem h
    exact absurd hsplit (hgroups operands case cases)

theorem clean_withOperands {op : Opcode}
    (h : op.form? = some .tableSwitch ∨ op.form? = some .lookupSwitch →
      bar ∈ args) :
    Clean (withOperands labels op mnemonic args) := by
  have htooFew : ∀ needed,
      Clean (tooFew mnemonic needed args : Except _ Instruction) :=
    fun _ => clean_error _
  have hplain : Clean (if args.isEmpty then .ok (Instruction.plain op)
      else .error (.error (.extraOperands mnemonic))) := by
    split_ifs
    · exact clean_ok _
    · exact clean_error _
  unfold withOperands
  rcases hform : op.form? with _ | form
  · exact hplain
  cases form with
  | plain _ | folded => exact hplain
  | tableSwitch => exact clean_switch (h (.inl hform)) true
  | lookupSwitch => exact clean_switch (h (.inr hform)) false
  | pushInt | load _ | store _ | ret =>
      rcases args with _ | ⟨n, args⟩
      · exact htooFew _
      · exact (clean_integer _ _).bind fun _ => clean_ok _
  | typed _ | constant =>
      rcases args with _ | ⟨operand, args⟩
      · exact htooFew _
      · exact clean_ok _
  | jump _ =>
      rcases args with _ | ⟨label, args⟩
      · exact htooFew _
      · exact (clean_target _ _ _).bind fun _ => clean_ok _
  | increment =>
      dsimp only
      split
      · exact (clean_integer _ _).bind fun _ =>
          (clean_integer _ _).bind fun _ => clean_ok _
      · exact htooFew _
  | multiArray =>
      dsimp only
      split
      · exact (clean_integer _ _).bind fun _ => clean_ok _
      · exact htooFew _
  | newArray | field _ =>
      dsimp only
      split
      · split
        · exact clean_ok _
        · exact clean_error _
      · exact htooFew _
  | invoke _ =>
      dsimp only
      split
      · split
        · split
          · exact clean_ok _
          · exact clean_error _
        · exact clean_error _
      · exact htooFew _
  | dynamic =>
      dsimp only
      split
      · exact clean_ok _
      · split
        · split_ifs
          · exact clean_error _
          · exact clean_ok _
        · exact clean_error _
      · exact htooFew _

theorem mem_switchMnemonics_of_form? {op : Opcode}
    (h : decodedOpcode? mnemonic = some op)
    (hform : op.form? = some .tableSwitch ∨ op.form? = some .lookupSwitch) :
    mnemonic ∈ switchMnemonics := by
  rw [decodedOpcode?] at h
  rcases hwide : wideVariants.lookup mnemonic with _ | op'
  · rw [hwide] at h
    dsimp only at h
    split_ifs at h
    have htable : ∀ row ∈ Opcode.table, row.2 = .tableSwitch ∨
        row.2 = .lookupSwitch → text row.1 ∈ switchMnemonics := by
      decide +kernel
    have hrow : ∀ form, op.form? = some form → form = .tableSwitch ∨
        form = .lookupSwitch → mnemonic ∈ switchMnemonics := by
      intro form hform hswitch
      obtain ⟨word, hrow, hname⟩ := Opcode.exists_row_of_form? hform
      obtain ⟨-, hget⟩ := Opcode.row?_eq_some_iff.mp hrow
      rw [← Opcode.name_of_ofMnemonic? h, hname]
      exact htable (word, form) (List.mem_of_getElem? hget) hswitch
    rcases hform with hform | hform
    · exact hrow _ hform (.inl rfl)
    · exact hrow _ hform (.inr rfl)
  · rw [hwide] at h
    cases h
    have hvariants : ∀ entry ∈ wideVariants,
        entry.2.form? ≠ some .tableSwitch ∧
          entry.2.form? ≠ some .lookupSwitch := by
      decide
    obtain ⟨before, after, hentries, -⟩ := List.lookup_eq_some_iff.mp hwide
    obtain ⟨htable, hlookup⟩ := hvariants (mnemonic, op) (by simp [hentries])
    rcases hform with hform | hform
    · exact absurd hform htable
    · exact absurd hform hlookup

theorem switch_eq_crash (h : bar ∉ args) (isTable : Bool) :
    switch labels isTable mnemonic args = .error .crash := by
  rw [switch, splitBars_eq, List.splitOn_eq_singleton h]

theorem withOperands_eq_crash {op : Opcode} (h : bar ∉ args)
    (hform : op.form? = some .tableSwitch ∨ op.form? = some .lookupSwitch) :
    withOperands labels op mnemonic args = .error .crash := by
  unfold withOperands
  rcases hform with hform | hform
  · rw [hform]
    exact switch_eq_crash h true
  · rw [hform]
    exact switch_eq_crash h false

/-- A switch without cases crashes. -/
theorem instruction_eq_crash {line : Line} (hhead : line.head ∈ switchMnemonics)
    (hbar : bar ∉ line.args) : instruction labels line = .error .crash := by
  obtain ⟨number, head, args⟩ := line
  have hnames : switchMnemonics =
      [Opcode.tableswitch.name, Opcode.lookupswitch.name] := by
    decide
  have htable := Opcode.form?_tableswitch
  have hlookup := Opcode.form?_lookupswitch
  simp only [hnames, List.mem_cons, List.not_mem_nil, or_false] at hhead
  rcases hhead with rfl | rfl
  · rw [instruction_of_spelled (Opcode.spelled_of_form? htable (by simp))]
    exact withOperands_eq_crash hbar (.inl htable)
  · rw [instruction_of_spelled (Opcode.spelled_of_form? hlookup (by simp))]
    exact withOperands_eq_crash hbar (.inr hlookup)

/-- Any other instruction does not. -/
theorem clean_instruction {line : Line}
    (h : line.head ∈ switchMnemonics → bar ∈ line.args) :
    Clean (instruction labels line) := by
  rw [instruction]
  split
  · split
    · exact clean_ok _
    · exact clean_error _
  · split
    · rename_i op hop
      exact clean_withOperands fun hform =>
        h (mem_switchMnemonics_of_form? hop hform)
    · exact clean_error _

theorem clean_handler (labels : Labels) (line : Line) :
    Clean (handler labels line) := by
  rw [handler]
  split
  · split
    · exact (clean_target _ _ _).bind fun _ =>
        (clean_target _ _ _).bind fun _ =>
        (clean_target _ _ _).bind fun _ => clean_ok _
    · exact clean_error _
  · exact clean_error _

theorem clean_limit (draft : Draft) (args : List Text) :
    Clean (draft.limit args) := by
  unfold Draft.limit
  split
  · split
    · exact clean_error _
    · split_ifs
      · exact clean_error _
      · exact clean_ok _
      · exact clean_ok _
      · exact clean_error _
  · exact clean_error _

end Operands

/-! ## Reports -/

/-- A number that one of the lines has. -/
def Numbered (read : List Line) (number : Nat) : Prop :=
  ∃ l ∈ read, l.number = number

/-- The fields of a line have a property, after a label or without one. -/
def Line.Says (line : Line) (P : List Text → Prop) : Prop :=
  P (line.head :: line.args) ∨
    ∃ label fields,
      line.head :: line.args = (label ++ [byte ':']) :: fields ∧ P fields

/-- The mark for wide operands, the mnemonic of a switch, and operands without a
bar. -/
def IsWideSwitch (fields : List Text) : Prop :=
  ∃ mnemonic ∈ switchMnemonics, ∃ operands,
    bar ∉ operands ∧ fields = wideMark :: mnemonic :: operands

/-- A declaration of the nullability of a parameter that has the largest index
there is. -/
def IsLastParam (fields : List Text) : Prop :=
  ∃ index name n, Number.decimal? index = some Int64.maxValue ∧
    Nullability.ofName? name = some n ∧ fields = [text ".param", index, name]

/-- What the reader does not guard against. -/
def IsUnguarded (fields : List Text) : Prop :=
  IsWideSwitch fields ∨ IsLastParam fields

/-- The region after lines of a source text. -/
def Region.after (read : List Line) : Region := read.foldl Region.next .outside

/-- One of the lines is in the body of a method, and its fields have a property,
after a label or without one. -/
def HoldsInBody (P : List Text → Prop) (read : List Line) : Prop :=
  ∃ before line after, read = before ++ line :: after ∧
    Region.after before = .body ∧ line.Says P

/-- What a part of the reader does with lines: its result has a property, its
error names one of the lines, and it ends the program only if there is the
mistake among them that leads to this. -/
def Reports {α : Type} (read : List Line) (Q : α → Prop) :
    Except (Failure SyntaxError) α → Prop
  | .ok a => Q a
  | .error (.error e) => Numbered read e.line
  | .error .crash => HoldsInBody IsWideSwitch read
  | .error .exhausted => HoldsInBody IsLastParam read

section Reports

variable {α β : Type} {read : List Line} {Q : α → Prop} {R : β → Prop}
    {number : Nat}

theorem Reports.bind {x : Except (Failure SyntaxError) α}
    {f : α → Except (Failure SyntaxError) β} (hx : Reports read Q x)
    (hf : ∀ a, Q a → Reports read R (f a)) : Reports read R (x >>= f) := by
  rcases x with (e | _ | _) | a
  · exact hx
  · exact hx
  · exact hx
  · exact hf a hx

/-- More may be said of the result. -/
theorem Reports.of_ok {x : Except (Failure SyntaxError) α} {P : α → Prop}
    (h : Reports read Q x) (hP : ∀ a, x = .ok a → Q a → P a) :
    Reports read P x := by
  rcases x with (e | _ | _) | a
  · exact h
  · exact h
  · exact h
  · exact hP a rfl h

theorem reports_failAt (h : Numbered read number) (cause : Cause) :
    Reports read Q (failAt number cause) := h

/-- An operation on a line ends the program only if there is the mistake among
the lines that leads to this. -/
def Excused (read : List Line) : Except (Failure Cause) α → Prop
  | .error .crash => HoldsInBody IsWideSwitch read
  | .error .exhausted => HoldsInBody IsLastParam read
  | _ => True

theorem Clean.excused {x : Except (Failure Cause) α} (h : Clean x) :
    Excused read x := by
  rcases x with (cause | _ | _) | a
  · trivial
  · exact h.elim
  · exact h.elim
  · trivial

/-- The failures of an operation on a line are reported at the line. -/
theorem reports_atLine {x : Except (Failure Cause) α}
    (hnumber : Numbered read number) (hx : Excused read x)
    (hok : ∀ a, x = .ok a → Q a) : Reports read Q (atLine number x) := by
  rcases x with (cause | _ | _) | a
  · exact hnumber
  · exact hx
  · exact hx
  · exact hok a rfl

theorem reports_eachLine {f : Line → Except (Failure Cause) α}
    {lines : List Line}
    (h : ∀ line ∈ lines, Numbered read line.number ∧ Excused read (f line)) :
    Reports read (fun _ => True) (eachLine f lines) := by
  induction lines with
  | nil => trivial
  | cons line lines ih =>
      obtain ⟨⟨hnumber, hline⟩, hlines⟩ := List.forall_mem_cons.mp h
      refine (reports_atLine hnumber hline fun _ _ => trivial).bind ?_
      intro a _
      exact (ih hlines).bind fun _ _ => trivial

end Reports

/-! ## What the reader holds -/

/-- A line that has been collected: it is numbered like one of the lines, and if
it is a switch without cases, then there is a wide switch among them. -/
structure Line.Held (read : List Line) (line : Line) : Prop where
  number : Numbered read line.number
  cases : line.head ∈ switchMnemonics → bar ∉ line.args →
    HoldsInBody IsWideSwitch read

/-- A draft whose lines have been collected from the given ones. -/
structure Draft.Held (read : List Line) (draft : Draft) : Prop where
  line : Numbered read draft.line
  body : ∀ line ∈ draft.body, line.Held read
  catches : ∀ line ∈ draft.catches, Numbered read line.number

/-- What the reader is in the middle of has been collected from the given
lines. -/
def Mode.Held (read : List Line) : Mode → Prop
  | .outside => True
  | .body draft => draft.Held read
  | .cases draft head => draft.Held read ∧ Numbered read head.number

/-- The reader stands where the lines lead to, with what has been collected from
them. -/
structure Progress.Held (read : List Line) (p : Progress) : Prop where
  region : p.mode.region = Region.after read
  mode : p.mode.Held read

variable {read : List Line} {line part : Line} {draft draft' : Draft}
    {p p' : Progress}

theorem Numbered.append {number : Nat} (h : Numbered read number)
    (more : List Line) :
    Numbered (read ++ more) number := by
  obtain ⟨l, hl, hnumber⟩ := h
  exact ⟨l, List.mem_append_left more hl, hnumber⟩

theorem numbered_last (read : List Line) (line : Line) :
    Numbered (read ++ [line]) line.number :=
  ⟨line, List.mem_append_right read List.mem_cons_self, rfl⟩

theorem HoldsInBody.append {P : List Text → Prop} (h : HoldsInBody P read)
    (more : List Line) : HoldsInBody P (read ++ more) := by
  obtain ⟨before, line, after, rfl, hregion, hline⟩ := h
  exact ⟨before, line, after ++ more, by simp, hregion, hline⟩

theorem Reports.append {α : Type} {Q : α → Prop}
    {x : Except (Failure SyntaxError) α} (h : Reports read Q x)
    (more : List Line) : Reports (read ++ more) Q x := by
  rcases x with (e | _ | _) | a
  · exact Numbered.append h more
  · exact HoldsInBody.append h more
  · exact HoldsInBody.append h more
  · exact h

theorem Line.Held.append (h : line.Held read) (more : List Line) :
    line.Held (read ++ more) :=
  ⟨h.number.append more, fun hhead hargs => (h.cases hhead hargs).append more⟩

theorem Draft.Held.append (h : draft.Held read) (more : List Line) :
    draft.Held (read ++ more) :=
  ⟨h.line.append more, fun line hline => (h.body line hline).append more,
    fun line hline => (h.catches line hline).append more⟩

theorem Draft.Held.collect (h : draft.Held read) (hline : line.Held read) :
    (draft.collect line).Held read := by
  refine ⟨h.line, fun l hl => ?_, h.catches⟩
  rcases Array.mem_push.mp hl with hl | rfl
  · exact h.body l hl
  · exact hline

theorem Line.Held.excused_instruction (h : line.Held read) (labels : Labels) :
    Excused read (instruction labels line) := by
  by_cases hswitch : line.head ∈ switchMnemonics ∧ bar ∉ line.args
  · obtain ⟨hhead, hbar⟩ := hswitch
    rw [instruction_eq_crash hhead hbar]
    exact h.cases hhead hbar
  · refine (clean_instruction fun hhead => ?_).excused
    by_contra hbar
    exact hswitch ⟨hhead, hbar⟩

/-- The lines of a draft are resolved, or there is one to report. -/
theorem Draft.Held.reports_finish (h : draft.Held read) :
    Reports read (fun _ => True) draft.finish := by
  rw [Draft.finish]
  refine (reports_eachLine fun line hline => ?_).bind fun insns _ => ?_
  · have hheld := h.body line (Array.mem_toList_iff.mp hline)
    exact ⟨hheld.number, hheld.excused_instruction _⟩
  · refine (reports_eachLine fun line hline => ?_).bind fun _ _ => trivial
    exact ⟨h.catches line (Array.mem_toList_iff.mp hline),
      (clean_handler _ line).excused⟩

theorem reports_ofHeader {owner : Text} (hline : Numbered read line.number) :
    Reports read (fun draft => draft.Held read)
      (Draft.ofHeader owner line) := by
  rw [Draft.ofHeader]
  split
  · exact reports_failAt hline _
  · split
    · split_ifs
      · exact reports_failAt hline _
      · exact ⟨hline, by simp, by simp⟩
    · exact reports_failAt hline _

theorem Draft.Held.limit {args : List Text} (h : draft.Held read)
    (hlimit : draft.limit args = .ok draft') : draft'.Held read := by
  obtain ⟨n, -, rfl | rfl⟩ := Draft.limit_eq_ok hlimit
  · exact ⟨h.line, h.body, h.catches⟩
  · exact ⟨h.line, h.body, h.catches⟩

theorem eq_maxValue_of_not_lt {i : Int64} (h : ¬ i.toInt.toNat < maxLength) :
    i = Int64.maxValue := by
  have hle := Int64.toInt_le i
  have hpos : 0 < maxLength := by decide
  refine Int64.toInt.inj ?_
  rw [maxLength] at h hpos
  omega

/-- Declaring a parameter goes on for ever only at the largest index. -/
theorem excused_param {args : List Text}
    (h : IsLastParam (text ".param" :: args) → HoldsInBody IsLastParam read) :
    Excused read (draft.param args) := by
  unfold Draft.param
  split
  · split
    · trivial
    · rename_i i hindex
      split_ifs
      · trivial
      · split
        · trivial
        · rename_i n hname
          rw [setParam]
          split_ifs with hroom
          · trivial
          · rw [eq_maxValue_of_not_lt hroom] at hindex
            exact h ⟨_, _, n, hindex, hname, rfl⟩
  · trivial

theorem Draft.Held.param {args : List Text} (h : draft.Held read)
    (hparam : draft.param args = .ok draft') : draft'.Held read := by
  obtain ⟨params, rfl⟩ := Draft.param_eq_ok hparam
  exact ⟨h.line, h.body, h.catches⟩

/-! ## Taking in a line -/

theorem reports_advanceOutside (hp : p.mode = .outside)
    (hline : Numbered read line.number) :
    Reports read (fun p' => p'.mode.Held read) (advanceOutside p line) := by
  rw [advanceOutside]
  split_ifs
  · split
    · exact show p.mode.Held read by rw [hp]; trivial
    · exact reports_failAt hline _
  · exact show p.mode.Held read by rw [hp]; trivial
  · exact (reports_ofHeader hline).bind fun draft hdraft => hdraft
  · exact reports_failAt hline _

/-- A line in a method, or the part of it after a label.  It is collected as it
is only if it is no switch; where it is marked, what follows the mark may be
one. -/
theorem reports_advanceBody (hdraft : draft.Held read)
    (hpart : Numbered read part.number)
    (hholds : ∀ P : List Text → Prop, P (part.head :: part.args) →
      HoldsInBody P read) :
    Reports read (fun p' => p'.mode.Held read) (advanceBody p draft part) := by
  rw [advanceBody]
  split_ifs with hend hlimit hparam hcatch hignored hcases hdirective hmark
  · exact hdraft.reports_finish.bind fun _ _ => trivial
  · exact (reports_atLine hpart (clean_limit _ _).excused
      fun _ hok => hdraft.limit hok).bind fun _ hdraft' => hdraft'
  · refine (reports_atLine hpart (excused_param fun hlast => hholds _ ?_)
      fun _ hok => hdraft.param hok).bind fun _ hdraft' => hdraft'
    rw [hparam]
    exact hlast
  · refine ⟨hdraft.line, hdraft.body, fun l hl => ?_⟩
    rcases Array.mem_push.mp hl with hl | rfl
    · exact hdraft.catches l hl
    · exact hpart
  · exact hdraft
  · exact ⟨hdraft, hpart⟩
  · exact reports_failAt hpart _
  · rcases hargs : part.args with _ | ⟨head, args⟩
    · exact reports_failAt hpart _
    · refine hdraft.collect ⟨hpart, fun hhead hbar => ?_⟩
      exact hholds _ ⟨head, hhead, args, hbar, by rw [hmark, hargs]⟩
  · refine hdraft.collect ⟨hpart, fun hhead => ?_⟩
    exact absurd (List.contains_iff_mem.mpr hhead) hcases

theorem labelName?_eq_some {field label : Text}
    (h : labelName? field = some label) :
    field = label ++ [byte ':'] := by
  rw [labelName?] at h
  split at h
  · rename_i b hlast
    split_ifs at h with hcolon
    cases h
    rw [← hcolon]
    exact (List.dropLast_append_getLast? b hlast).symm
  · cases h

theorem reports_advanceLabelled (hdraft : draft.Held (read ++ [line]))
    (hregion : Region.after read = .body) :
    Reports (read ++ [line]) (fun p' => p'.mode.Held (read ++ [line]))
      (advanceLabelled p draft line) := by
  have hnumber := numbered_last read line
  have hholds : ∀ P : List Text → Prop, line.Says P →
      HoldsInBody P (read ++ [line]) := fun P hline =>
    ⟨read, line, [], rfl, hregion, hline⟩
  rw [advanceLabelled]
  split
  · exact reports_advanceBody hdraft hnumber fun P h => hholds P (.inl h)
  · rename_i label hlabel
    have hmarked :
        { draft with labels := (label, draft.body.size) :: draft.labels }.Held
        (read ++ [line]) := ⟨hdraft.line, hdraft.body, hdraft.catches⟩
    split_ifs
    · exact reports_failAt hnumber _
    · rcases hargs : line.args with _ | ⟨head, args⟩
      · exact hmarked
      · refine reports_advanceBody hmarked hnumber fun P h => ?_
        refine hholds P (.inr ⟨label, head :: args, ?_, h⟩)
        rw [labelName?_eq_some hlabel, hargs]

theorem Region.after_append (read : List Line) (line : Line) :
    Region.after (read ++ [line]) = (Region.after read).next line := by
  rw [Region.after, List.foldl_append]
  rfl

theorem region_of_advance (h : advance p line = .ok p') :
    p'.mode.region = p.mode.region.next line := by
  by_cases hregion : p.mode.region = .outside
  · rw [hregion]
    exact (stands_of_advance_outside h
      (Mode.region_eq_outside_iff.mp hregion)).region
  · exact (stands_of_advance_inside h hregion).region

/-- The last case makes a line that is collected, which then has a bar. -/
theorem held_advanceCases {head : Line} (hdraft : draft.Held read)
    (hhead : Numbered read head.number) :
    (advanceCases p draft head line).mode.Held read := by
  rw [advanceCases]
  split_ifs
  · refine hdraft.collect ⟨hhead, fun _ hbar => ?_⟩
    exact absurd (by simp) hbar
  · exact ⟨hdraft, hhead⟩

/-- Taking in a line keeps the reader in order, or there is a line to report. -/
theorem Progress.Held.reports_advance (hp : p.Held read) (line : Line) :
    Reports (read ++ [line]) (fun p' => p'.Held (read ++ [line]))
      (advance p line) := by
  obtain ⟨hregion, hheld⟩ := hp
  have hmode : Reports (read ++ [line])
      (fun p' => p'.mode.Held (read ++ [line])) (advance p line) := by
    rw [advance]
    rcases hp : p.mode with _ | draft | ⟨draft, head⟩
    · exact reports_advanceOutside hp (numbered_last read line)
    · rw [hp] at hheld hregion
      exact reports_advanceLabelled (Draft.Held.append hheld [line])
        hregion.symm
    · rw [hp] at hheld
      obtain ⟨hdraft, hhead⟩ := hheld
      exact held_advanceCases (hdraft.append [line]) (hhead.append [line])
  refine hmode.of_ok fun p' h hheld => ⟨?_, hheld⟩
  rw [region_of_advance h, hregion, Region.after_append]

/-- Reading lines keeps the reader in order, or there is a line to report. -/
theorem Progress.Held.reports_foldlM {lines : List Line} (hp : p.Held read) :
    Reports (read ++ lines) (fun p' => p'.Held (read ++ lines))
      (lines.foldlM advance p) := by
  induction lines generalizing read p with
  | nil =>
      rw [List.append_nil]
      exact hp
  | cons line lines ih =>
      rw [List.foldlM_cons, ← List.singleton_append, ← List.append_assoc]
      exact ((hp.reports_advance line).append lines).bind fun p' hp' => ih hp'

theorem Progress.Held.reports_finish (hp : p.Held read) :
    Reports read (fun _ => True) p.finish := by
  have hmode := hp.mode
  rw [Progress.finish]
  rcases hp' : p.mode with _ | draft | ⟨draft, head⟩
  · trivial
  · rw [hp'] at hmode
    exact reports_failAt (Draft.Held.line hmode) _
  · rw [hp'] at hmode
    exact reports_failAt hmode.2 _

theorem reports_lines (lines : List Line) :
    Reports lines (fun p => p.Held lines) (lines.foldlM advance {}) := by
  have hstart : Progress.Held [] {} := ⟨rfl, trivial⟩
  exact hstart.reports_foldlM

/-- Reading a source text is in order. -/
theorem reports_parse (source : Text) :
    Reports (readLines source) (fun _ => True) (parse source) := by
  rw [parse]
  exact (reports_lines _).bind fun p hp => hp.reports_finish

/-! ## Lines that are never passed -/

/-- A draft that cannot be finished, because of a switch without cases. -/
def Draft.Blocked (draft : Draft) : Prop :=
  ∃ line ∈ draft.body, line.head ∈ switchMnemonics ∧ bar ∉ line.args

/-- The reader is in the middle of a method that cannot be finished. -/
def Mode.Blocked : Mode → Prop
  | .outside => False
  | .body draft | .cases draft _ => draft.Blocked

theorem Draft.Blocked.finish_ne_ok (h : draft.Blocked) (m : Method) :
    draft.finish ≠ .ok m := by
  intro hfinish
  obtain ⟨line, hline, hhead, hbar⟩ := h
  obtain ⟨insns, handlers, hinsns, -⟩ := Draft.finish_eq_ok_iff.mp hfinish
  obtain ⟨insn, hinsn⟩ := hinsns.exists_result (Array.mem_toList_iff.mpr hline)
  rw [instruction_eq_crash hhead hbar] at hinsn
  cases hinsn

theorem Draft.Blocked.of_subset (h : draft.Blocked)
    (hsubset : ∀ l ∈ draft.body, l ∈ draft'.body) : draft'.Blocked := by
  obtain ⟨line, hline, hswitch⟩ := h
  exact ⟨line, hsubset line hline, hswitch⟩

theorem blocked_of_advanceBody (hdraft : draft.Blocked)
    (h : advanceBody p draft part = .ok p') : p'.mode.Blocked := by
  rcases advanceBody_cases h with ⟨-, m, hm, -⟩ |
    ⟨-, ⟨-, rfl⟩ | ⟨-, draft', rfl, -, hsubset⟩⟩
  · exact absurd hm (hdraft.finish_ne_ok m)
  · exact hdraft
  · exact hdraft.of_subset hsubset

theorem blocked_of_advanceLabelled (hdraft : draft.Blocked)
    (h : advanceLabelled p draft line = .ok p') : p'.mode.Blocked := by
  rcases advanceLabelled_cases h with ⟨-, h⟩ |
    ⟨label, -, marked, rfl, ⟨-, rfl⟩ | ⟨head, args, -, h⟩⟩
  · exact blocked_of_advanceBody hdraft h
  · exact hdraft
  · refine blocked_of_advanceBody ?_ h
    exact hdraft

/-- A method that cannot be finished stays one, whatever line comes next. -/
theorem blocked_of_advance (hp : p.mode.Blocked)
    (h : advance p line = .ok p') : p'.mode.Blocked := by
  rw [advance] at h
  rcases hmode : p.mode with _ | draft | ⟨draft, head⟩
  · rw [hmode] at hp
    exact hp.elim
  · rw [hmode] at hp h
    exact blocked_of_advanceLabelled hp h
  · rw [hmode] at hp h
    cases h
    rw [advanceCases]
    split_ifs
    · exact Draft.Blocked.of_subset hp fun _ => Array.mem_push_of_mem _
    · exact hp

theorem blocked_of_foldlM {lines : List Line} (hp : p.mode.Blocked)
    (h : lines.foldlM advance p = .ok p') : p'.mode.Blocked := by
  induction lines generalizing p with
  | nil =>
      cases h
      exact hp
  | cons line lines ih =>
      rw [List.foldlM_cons] at h
      obtain ⟨q, hq, h⟩ := bind_eq_ok_iff.mp h
      exact ih (blocked_of_advance hp hq) h

theorem param_eq_exhausted {args : List Text}
    (h : IsLastParam (text ".param" :: args)) :
    draft.param args = .error .exhausted := by
  obtain ⟨index, name, n, hindex, hname, heq⟩ := h
  cases heq
  have hmax : ¬ Int64.maxValue.toInt.toNat < maxLength := Nat.lt_irrefl _
  simp only [Draft.param, hindex, hname]
  rw [if_neg (by decide), setParam, if_neg hmax]
  rfl

/-- What is not guarded against leads to a method that cannot be finished, or
ends the program right away. -/
theorem blocked_of_isUnguarded (hpart : IsUnguarded (part.head :: part.args))
    (h : advanceBody p draft part = .ok p') : p'.mode.Blocked := by
  rcases hpart with ⟨mnemonic, hmnemonic, operands, hbar, heq⟩ | hparam
  · obtain ⟨hhead, hargs⟩ := List.cons.inj heq
    have hline : Line.ofFields? part.number part.args =
        some ⟨part.number, mnemonic, operands⟩ := by
      rw [hargs]
      rfl
    have hdirectives : wideMark ≠ text ".end" ∧ wideMark ≠ text ".limit" ∧
        wideMark ≠ text ".param" ∧ wideMark ≠ text ".catch" := by
      decide
    obtain ⟨hend, hlimit, hparam, hcatch⟩ := hdirectives
    rw [advanceBody, hhead, if_neg hend, if_neg hlimit, if_neg hparam,
      if_neg hcatch, if_neg (by decide), if_neg (by decide), if_neg (by decide),
      if_pos rfl, hline] at h
    cases h
    exact ⟨_, Array.mem_push_self, hmnemonic, hbar⟩
  · have hhead : part.head = text ".param" := by
      obtain ⟨index, name, n, -, -, heq⟩ := hparam
      exact (List.cons.inj heq).1
    rw [hhead] at hparam
    rw [advanceBody, hhead, if_neg (by decide), if_neg (by decide), if_pos rfl,
      param_eq_exhausted hparam] at h
    cases h

theorem labelName?_append_colon (label : Text) :
    labelName? (label ++ [byte ':']) = some label := by
  simp [labelName?]

theorem exists_cons_of_isUnguarded {fields : List Text}
    (h : IsUnguarded fields) :
    ∃ head args, fields = head :: args ∧ labelName? head = none := by
  rcases h with ⟨_, _, _, _, rfl⟩ | ⟨_, _, _, _, _, rfl⟩
  · exact ⟨_, _, rfl, by decide⟩
  · exact ⟨_, _, rfl, by decide⟩

theorem blocked_of_unguarded_line (hmode : p.mode = .body draft)
    (hline : line.Says IsUnguarded) (h : advance p line = .ok p') :
    p'.mode.Blocked := by
  rw [advance, hmode] at h
  rcases hline with hline | ⟨label, fields, heq, hfields⟩
  · obtain ⟨head, args, hfields, hhead⟩ := exists_cons_of_isUnguarded hline
    rw [← (List.cons.inj hfields).1] at hhead
    rcases advanceLabelled_cases h with ⟨-, h⟩ | ⟨label, hlabel, -⟩
    · exact blocked_of_isUnguarded hline h
    · rw [hhead] at hlabel
      cases hlabel
  · obtain ⟨head, args, rfl, -⟩ := exists_cons_of_isUnguarded hfields
    obtain ⟨hhead, hargs⟩ := List.cons.inj heq
    have hlabel : labelName? line.head = some label := by
      rw [hhead, labelName?_append_colon]
    rcases advanceLabelled_cases h with ⟨hnone, -⟩ |
      ⟨_, -, marked, -, ⟨hnil, -⟩ | ⟨head', args', hcons, h⟩⟩
    · rw [hlabel] at hnone
      cases hnone
    · rw [hargs] at hnil
      cases hnil
    · rw [hargs] at hcons
      cases hcons
      exact blocked_of_isUnguarded hfields h

theorem exists_draft_of_region {mode : Mode} (h : mode.region = .body) :
    ∃ draft, mode = .body draft := by
  cases mode with
  | outside => cases h
  | body draft => exact ⟨draft, rfl⟩
  | cases draft head => cases h

theorem finish_ne_ok_of_blocked (h : p.mode.Blocked) (ms : List Method) :
    p.finish ≠ .ok ms := by
  intro hfinish
  rw [Progress.finish] at hfinish
  rcases hmode : p.mode with _ | draft | ⟨draft, head⟩
  · rw [hmode] at h
    exact h
  · rw [hmode] at hfinish
    cases hfinish
  · rw [hmode] at hfinish
    cases hfinish

/-- Of a text that is assembled, no line in the body of a method is one that is
not guarded against. -/
theorem not_holdsUnguarded_of_parse {source : Text} {ms : List Method}
    (h : parse source = .ok ms) :
    ¬ HoldsInBody IsUnguarded (readLines source) := by
  rintro ⟨before, line, after, hread, hregion, hline⟩
  rw [parse, hread] at h
  obtain ⟨last, hlast, hfinish⟩ := bind_eq_ok_iff.mp h
  rw [List.foldlM_append] at hlast
  obtain ⟨p, hp, hrest⟩ := bind_eq_ok_iff.mp hlast
  rw [List.foldlM_cons] at hrest
  obtain ⟨p', hadvance, hrest⟩ := bind_eq_ok_iff.mp hrest
  have hheld : p.Held before := by
    have hreports := reports_lines before
    rw [hp] at hreports
    exact hreports
  obtain ⟨draft, hmode⟩ := exists_draft_of_region (hheld.region.trans hregion)
  have hblocked := blocked_of_unguarded_line hmode hline hadvance
  exact finish_ne_ok_of_blocked (blocked_of_foldlM hblocked hrest) ms hfinish

theorem exists_sourceLine_of_numbered {source : Text} {number : Nat}
    (h : Numbered (readLines source) number) :
    1 ≤ number ∧ number ≤ (sourceLines source).length ∧
      ∃ l, (sourceLines source)[number - 1]? = some l ∧ fields l ≠ [] := by
  obtain ⟨line, hline, rfl⟩ := h
  obtain ⟨⟨l, index⟩, hmem, hfields⟩ := List.mem_filterMap.mp hline
  have hget := List.mem_zipIdx_iff_getElem?.mp hmem
  dsimp only at hget hfields
  obtain ⟨hindex, -⟩ := List.getElem?_eq_some_iff.mp hget
  rcases hl : fields l with _ | ⟨head, args⟩
  · rw [hl] at hfields
    cases hfields
  · rw [hl] at hfields
    cases hfields
    exact ⟨Nat.le_add_left 1 index, hindex, l, hget, by simp [hl]⟩

/-- A source text is assembled, and then no line in the body of a method is one
that the reader does not guard against.  Or it is refused with an error, which
names one of the lines that hold something.  Or the reader crashes, which only a
wide switch without cases makes it do, or never stops adding entries to a list,
which only the largest index of a parameter makes it do. -/
theorem parse_fails_cleanly (source : Text) :
    (∃ ms, parse source = .ok ms ∧
      ¬ HoldsInBody IsUnguarded (readLines source)) ∨
    (∃ e : SyntaxError, parse source = .error (.error e) ∧
      text "syntax error: line " ++ Text.ofNat e.line ++ text ": " <+:
        e.message ∧
      1 ≤ e.line ∧ e.line ≤ (sourceLines source).length ∧
      ∃ l, (sourceLines source)[e.line - 1]? = some l ∧ fields l ≠ []) ∨
    (parse source = .error .crash ∧
      HoldsInBody IsWideSwitch (readLines source)) ∨
    (parse source = .error .exhausted ∧
      HoldsInBody IsLastParam (readLines source)) := by
  have hreports := reports_parse source
  rcases hparse : parse source with (e | _ | _) | ms
  · rw [hparse] at hreports
    exact .inr (.inl ⟨e, rfl, List.prefix_append _ _,
      exists_sourceLine_of_numbered hreports⟩)
  · rw [hparse] at hreports
    exact .inr (.inr (.inl ⟨rfl, hreports⟩))
  · rw [hparse] at hreports
    exact .inr (.inr (.inr ⟨rfl, hreports⟩))
  · exact .inl ⟨ms, rfl, not_holdsUnguarded_of_parse hparse⟩

/-- A source text that declares the nullability of the last parameter there
could be. -/
def lastParamSource : Text :=
  text ".method static f()V\n.param 9223372036854775807 null\n.end method"

/-- A source text with a wide switch after a label. -/
def wideSwitchSource : Text :=
  text (".method static run(I)V\niload_0\n"
    ++ "Next: wide tableswitch 1 2 Next\n.end method")

theorem unguarded_sources_fail :
    (parse lastParamSource = .error .exhausted ∧
      HoldsInBody IsLastParam (readLines lastParamSource)) ∧
    parse wideSwitchSource = .error .crash ∧
      HoldsInBody IsWideSwitch (readLines wideSwitchSource) := by
  have hparam : parse lastParamSource = .error .exhausted := by decide +kernel
  have hswitch : parse wideSwitchSource = .error .crash := by decide +kernel
  constructor
  · have hcases := parse_fails_cleanly lastParamSource
    simpa [hparam] using hcases
  · have hcases := parse_fails_cleanly wideSwitchSource
    simpa [hswitch] using hcases

end Assembly
end Nullness
