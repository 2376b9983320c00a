import Nullness.Proofs.Mnemonics

/-!
# Reading the lines of a method body

`Reads` says that lines of fields take the reader from one state to another, and
hides how lines are numbered; `Assembles` says that lines add one instruction to
the method that is being read, whatever has been read of it before.

An instruction on one line is found by its mnemonic.  A switch takes several
lines, which the reader joins with bars between them and takes apart at the bars
again.
-/

namespace Nullness
namespace Assembly

/-- Reading lines of fields, the first of which has a number, takes the reader
from one state to another. -/
def Reads (number : Nat) (p : Progress) (lines : List (List Text))
    (p' : Progress) :
    Prop :=
  (numberedFrom number lines).foldlM advance p = .ok p'

theorem reads_nil (number : Nat) (p : Progress) : Reads number p [] p := rfl

theorem Reads.append {number : Nat} {p p' p'' : Progress}
    {lines more : List (List Text)} (h : Reads number p lines p')
    (hmore : Reads (number + lines.length) p' more p'') :
    Reads number p (lines ++ more) p'' := by
  rw [Reads, numberedFrom_append, List.foldlM_append, h]
  exact hmore

theorem reads_cons {number : Nat} {p p' p'' : Progress} {head : Text}
    {args : List Text} {lines : List (List Text)}
    (h : advance p ⟨number, head, args⟩ = .ok p')
    (hlines : Reads (number + 1) p' lines p'') :
    Reads number p ((head :: args) :: lines) p'' := by
  have hnumbered : numberedFrom number ((head :: args) :: lines) =
      ⟨number, head, args⟩ :: numberedFrom (number + 1) lines := rfl
  rw [Reads, hnumbered, List.foldlM_cons, h]
  exact hlines

/-- A draft with one more instruction line. -/
def Draft.collect (draft : Draft) (line : Line) : Draft :=
  { draft with body := draft.body.push line }

/-- Lines that add one instruction to the method that is being read. -/
def Assembles (labels : Labels) (lines : List (List Text))
    (insn : Instruction) : Prop :=
  ∀ (number : Nat) (p : Progress) (draft : Draft), ∃ line,
    Reads number { p with mode := .body draft } lines
      { p with mode := .body (draft.collect line) } ∧
    instruction labels line = .ok insn

/-- A line that is none of the lines with a meaning of their own is
collected. -/
theorem advance_instruction {p : Progress} {draft : Draft} {line : Line}
    (hlabel : labelName? line.head = none)
    (hdirective : line.head.head? ≠ some (byte '.'))
    (hcases : switchMnemonics.contains line.head = false)
    (hmark : line.head ≠ wideMark) :
    advance { p with mode := .body draft } line =
      .ok { p with mode := .body (draft.collect line) } := by
  have hother : ∀ directive : Text, directive.head? = some (byte '.') →
      line.head ≠ directive := by
    rintro directive hdot rfl
    exact hdirective hdot
  have hignored : ignoredInside.contains line.head = false := by
    have hdots : ∀ directive ∈ ignoredInside, directive.head? =
        some (byte '.') := by
      decide
    have hnot : line.head ∉ ignoredInside :=
      fun hmem => hdirective (hdots _ hmem)
    simpa using hnot
  simp only [advance, advanceLabelled, hlabel, advanceBody,
    if_neg (hother (text ".end") rfl), if_neg (hother (text ".limit") rfl),
    if_neg (hother (text ".param") rfl), if_neg (hother (text ".catch") rfl),
    hignored, hcases, if_neg hdirective, if_neg hmark, Bool.false_eq_true,
    if_false, Draft.collect]

theorem assembles_single {labels : Labels} {head : Text} {args : List Text}
    {insn : Instruction} (hlabel : labelName? head = none)
    (hdirective : head.head? ≠ some (byte '.'))
    (hcases : switchMnemonics.contains head = false) (hmark : head ≠ wideMark)
    (h : ∀ number, instruction labels ⟨number, head, args⟩ = .ok insn) :
    Assembles labels [head :: args] insn := by
  intro number p draft
  refine ⟨⟨number, head, args⟩, ?_, h number⟩
  exact reads_cons (advance_instruction hlabel hdirective hcases hmark)
    (reads_nil _ _)

theorem instruction_of_spelled {labels : Labels} {op : Opcode} {form : Form}
    (hspelled : op.Spelled form) (number : Nat) (args : List Text) :
    instruction labels ⟨number, op.name, args⟩ =
      withOperands labels op op.name args := by
  simp only [instruction, hspelled.short, hspelled.decoded]

/-- An instruction on one line is read back if its operands are. -/
theorem assembles_of_withOperands {labels : Labels} {op : Opcode} {form : Form}
    {args : List Text} {insn : Instruction} (hform : op.form? = some form)
    (hplain : form ≠ .folded ∧ form ≠ .tableSwitch ∧ form ≠ .lookupSwitch)
    (h : withOperands labels op op.name args = .ok insn) :
    Assembles labels [op.name :: args] insn := by
  have hspelled := Opcode.spelled_of_form? hform hplain.1
  refine assembles_single hspelled.label hspelled.directive ?_ hspelled.mark ?_
  · rcases hspelled.cases with htable | hlookup | hcases
    · exact absurd htable hplain.2.1
    · exact absurd hlookup hplain.2.2
    · exact hcases
  · intro number
    rw [instruction_of_spelled hspelled, h]

/-! ## Collected lines

What the collected lines stand for is only known when all labels are. -/

theorem bind_eq_ok_iff {ε α β : Type} {x : Except ε α} {f : α → Except ε β}
    {b : β} :
    (x >>= f) = .ok b ↔ ∃ a, x = .ok a ∧ f a = .ok b := by
  cases x with
  | error e => simp [Bind.bind, Except.bind]
  | ok a => simp [Bind.bind, Except.bind]

/-- Lines that a function resolves to the given things. -/
def Collects {α : Type} (resolve : Line → Except (Failure Cause) α)
    (lines : List Line) (as : List α) : Prop :=
  List.Forall₂ (fun line a => resolve line = .ok a) lines as

theorem Collects.exists_line {α : Type}
    {resolve : Line → Except (Failure Cause) α} {lines : List Line}
    {as : List α} (h : Collects resolve lines as) {a : α} (ha : a ∈ as) :
    ∃ line ∈ lines, resolve line = .ok a := by
  induction h with
  | nil => cases ha
  | cons hline _ ih =>
      rcases List.mem_cons.mp ha with rfl | ha
      · exact ⟨_, List.mem_cons_self, hline⟩
      · obtain ⟨line, hmem, hresolve⟩ := ih ha
        exact ⟨line, List.mem_cons_of_mem _ hmem, hresolve⟩

theorem Collects.exists_result {α : Type}
    {resolve : Line → Except (Failure Cause) α} {lines : List Line}
    {as : List α} (h : Collects resolve lines as) {line : Line}
    (hline : line ∈ lines) : ∃ a, resolve line = .ok a := by
  induction h with
  | nil => cases hline
  | cons hfirst _ ih =>
      rcases List.mem_cons.mp hline with rfl | hline
      · exact ⟨_, hfirst⟩
      · exact ih hline

theorem atLine_eq_ok_iff {α : Type} {number : Nat}
    {x : Except (Failure Cause) α} {a : α} :
    atLine number x = .ok a ↔ x = .ok a := by
  cases x <;> simp [atLine]

theorem eachLine_eq_ok_iff {α : Type}
    {resolve : Line → Except (Failure Cause) α} {lines : List Line}
    {as : List α} :
    eachLine resolve lines = .ok as ↔ Collects resolve lines as := by
  induction lines generalizing as with
  | nil => simp [eachLine, Collects, eq_comm]
  | cons line lines ih =>
      simp only [eachLine, bind_eq_ok_iff, atLine_eq_ok_iff, ih]
      constructor
      · rintro ⟨a, ha, as', has', heq⟩
        cases heq
        exact .cons ha has'
      · rintro (_ | ⟨ha, has⟩)
        exact ⟨_, ha, _, has, rfl⟩

/-- A draft is finished with what its lines are resolved to. -/
theorem Draft.finish_eq_ok_iff {draft : Draft} {m : Method} :
    draft.finish = .ok m ↔ ∃ insns handlers,
      Collects (instruction ⟨draft.labels, draft.body.size⟩)
        draft.body.toList insns ∧
      Collects (handler ⟨draft.labels, draft.body.size⟩)
        draft.catches.toList handlers ∧
      m = {
        owner := draft.owner
        name := draft.name
        desc := draft.desc
        isStatic := draft.isStatic
        maxStack := draft.maxStack
        maxLocals := draft.maxLocals
        instructions := insns
        handlers := handlers
        params := draft.params } := by
  simp only [Draft.finish, bind_eq_ok_iff, eachLine_eq_ok_iff]
  constructor
  · rintro ⟨insns, hinsns, handlers, hhandlers, heq⟩
    cases heq
    exact ⟨insns, handlers, hinsns, hhandlers, rfl⟩
  · rintro ⟨insns, handlers, hinsns, hhandlers, rfl⟩
    exact ⟨insns, hinsns, handlers, hhandlers, rfl⟩

/-! ## Switches -/

theorem intercalate_bar (operands : List Text) (groups : List (List Text)) :
    [bar].intercalate (operands :: groups) =
      operands ++ groups.flatMap (bar :: ·) := by
  induction groups generalizing operands with
  | nil => simp
  | cons group groups ih =>
      rw [List.intercalate_cons_cons, ih, List.flatMap_cons, List.append_assoc]
      rfl

theorem splitBars_flatMap {operands : List Text} {groups : List (List Text)}
    (h : ∀ group ∈ operands :: groups, bar ∉ group) :
    splitBars (operands ++ groups.flatMap (bar :: ·)) = operands :: groups := by
  rw [splitBars_eq, ← intercalate_bar]
  exact List.splitOn_intercalate bar h (List.cons_ne_nil _ _)

/-- The first line of a switch with case lines joined to it. -/
def joinCases (head : Line) (groups : List (List Text)) : Line :=
  { head with args := head.args ++ groups.flatMap (bar :: ·) }

theorem joinCases_nil (head : Line) : joinCases head [] = head := by
  simp [joinCases]

theorem joinCases_cons (head : Line) (group : List Text)
    (groups : List (List Text)) :
    joinCases head (group :: groups) =
      joinCases (joinCases head [group]) groups := by
  simp [joinCases]

/-- Whether fields make a case line other than the default case. -/
def IsCase (fields : List Text) : Prop :=
  ∃ word rest, fields = word :: rest ∧
    word.takeWhile (· != byte ':') ≠ text "default"

/-- Case lines are joined to the first line of their switch. -/
theorem reads_cases {number : Nat} {p : Progress} {draft : Draft} {head : Line}
    {groups : List (List Text)} (h : ∀ group ∈ groups, IsCase group) :
    Reads number { p with mode := .cases draft head } groups
      { p with mode := .cases draft (joinCases head groups) } := by
  induction groups generalizing number head with
  | nil =>
      rw [joinCases_nil]
      exact reads_nil _ _
  | cons group groups ih =>
      obtain ⟨⟨word, rest, rfl, hword⟩, hgroups⟩ := List.forall_mem_cons.mp h
      have hadvance :
          advance { p with mode := .cases draft head } ⟨number, word, rest⟩ =
            .ok { p with
              mode := .cases draft (joinCases head [word :: rest]) } := by
        simp [advance, advanceCases, isDefaultCase, hword, joinCases]
      rw [joinCases_cons]
      exact reads_cons hadvance (ih hgroups)

/-- A whole switch is read as one line. -/
theorem reads_switch {number : Nat} {p : Progress} {draft : Draft} {head : Text}
    {operands : List Text} {groups : List (List Text)} {target : Int64}
    (hlabel : labelName? head = none)
    (hcases : switchMnemonics.contains head = true)
    (h : ∀ group ∈ groups, IsCase group) :
    Reads number { p with mode := .body draft }
      ((head :: operands) :: groups ++ [defaultFields target])
      { p with
        mode := .body (draft.collect (joinCases
          ⟨number, head, operands⟩ (groups ++ [defaultFields target]))) } := by
  have hmem : head = text "tableswitch" ∨ head = text "lookupswitch" := by
    simpa [switchMnemonics] using hcases
  have hstart :
      advance { p with mode := .body draft } ⟨number, head, operands⟩ =
        .ok { p with mode := .cases draft ⟨number, head, operands⟩ } := by
    rcases hmem with rfl | rfl <;> rfl
  have hdefault : ∀ number' line, advance { p with mode := .cases draft line }
      ⟨number', text "default", [text ":", labelOf target]⟩ =
        .ok { p with
          mode := .body
            (draft.collect (joinCases line [defaultFields target])) } := by
    intro number' line
    have htake : (text "default").takeWhile (· != byte ':') =
        text "default" := by decide
    simp [advance, advanceCases, isDefaultCase, htake, joinCases, defaultFields,
      Draft.collect]
  have hjoin : joinCases ⟨number, head, operands⟩
      (groups ++ [defaultFields target]) =
      joinCases (joinCases ⟨number, head, operands⟩ groups)
        [defaultFields target] := by
    simp [joinCases]
  rw [List.cons_append, hjoin]
  exact reads_cons hstart
    ((reads_cases h).append (reads_cons (hdefault _ _) (reads_nil _ _)))

theorem switch_eq {labels : Labels} {isTable : Bool} {mnemonic : Text}
    {args operands last : List Text} {groups : List (List Text)}
    (h : splitBars args = operands :: (groups ++ [last])) :
    switch labels isTable mnemonic args = (do
      let default ← defaultTarget labels mnemonic last
      if isTable then
        let (min, max) ← tableRange operands
        let targets ← tableTargets labels groups
        return .tableSwitch min max default targets
      else
        let pairs ← lookupCases labels groups
        return .lookupSwitch default (pairs.map (·.1)) (pairs.map (·.2))) := by
  rw [switch, h]
  cases groups with
  | nil => rfl
  | cons group groups =>
      have hlast : (group :: (groups ++ [last])).getLast (by simp) = last := by
        simp
      have hdrop : (group :: (groups ++ [last])).dropLast =
          group :: groups := by
        rw [← List.cons_append, List.dropLast_concat]
      simp only [List.cons_append, hlast, hdrop]

theorem caseParts_pair {key label : Text} (hkey : byte ':' ∉ key)
    (hlabel : byte ':' ∉ label) :
    caseParts [key, text ":", label] = [key, label] := by
  have hjoin : Text.join [] [key, text ":", label] =
      key ++ byte ':' :: label := by
    simp [Text.join, show text ":" = [byte ':'] from rfl]
  rw [caseParts, hjoin, Text.splitOn_eq,
    List.splitOn_append_cons_self_of_not_mem hkey,
    List.splitOn_eq_singleton hlabel]

theorem labelOf_ne_bar (pos : Int64) : labelOf pos ≠ bar := fun h =>
  absurd (List.cons.inj h).1 (by decide)

/-- A switch is read back if its operands and cases are. -/
theorem assembles_switch {labels : Labels} {op : Opcode} {form : Form}
    {operands : List Text} {groups : List (List Text)} {target : Int64}
    {insn : Instruction} (hform : op.form? = some form)
    (hfolded : form ≠ .folded)
    (hcases : switchMnemonics.contains op.name = true)
    (hgroups : ∀ group ∈ groups, IsCase group)
    (hbars : ∀ group ∈ operands :: groups, bar ∉ group)
    (h : ∀ args, splitBars args = operands ::
      (groups ++ [defaultFields target]) →
      withOperands labels op op.name args = .ok insn) :
    Assembles labels ((op.name :: operands) :: groups ++ [defaultFields target])
      insn := by
  have hspelled := Opcode.spelled_of_form? hform hfolded
  have hdefault : bar ∉ defaultFields target := by
    simp only [defaultFields, List.mem_cons, List.not_mem_nil, or_false, not_or]
    exact ⟨by decide, by decide, (labelOf_ne_bar target).symm⟩
  intro number p draft
  refine ⟨_, reads_switch hspelled.label hcases hgroups, ?_⟩
  rw [joinCases, instruction_of_spelled hspelled]
  apply h
  apply splitBars_flatMap
  rw [← List.cons_append]
  intro group hgroup
  rcases List.mem_append.mp hgroup with hgroup | hgroup
  · exact hbars group hgroup
  · rw [List.mem_singleton.mp hgroup]
    exact hdefault

end Assembly
end Nullness
