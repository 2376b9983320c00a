import Nullness.Proofs.Drafts
import Nullness.Proofs.Spelling

/-!
# What an assembled method is made of

A method that the assembler returns is a finished draft.  Each of its
instructions is what a line of the draft stands for, and what that can be is
said by `instruction_eq_ok`: an instruction whose operands fit its opcode and
whose targets are marked by labels, or an access to an array element that was
taken for one to a local variable.

The labels of a draft mark positions of its body, so that all control flow of an
assembled method stays in the method (`Method.Resolved`).
-/

namespace Nullness
namespace Assembly

/-! ## What a line stands for -/

/-- A position that a label marks. -/
def Labels.Marks (labels : Labels) (pos : Int64) : Prop :=
  ∃ label, labels.instruction label = .ok pos

end Assembly

namespace Instruction

/-- A load or store of an array element that is taken for one of the first four
local variables, because of the end of its mnemonic. -/
def isMisread : Instruction → Bool
  | .var op index => op.isArrayAccess && 0 ≤ index.toInt && index.toInt ≤ 3
  | _ => false

/-- What is known about the operands of an instruction that have to do with
control flow, when its line has a number of arguments. -/
def MarkedBy (labels : Assembly.Labels) (args : Nat) : Instruction → Prop
  | .jump _ target => labels.Marks target
  | .tableSwitch min max default targets =>
    min.toInt ≤ max.toInt ∧ targets.length < args ∧
      ∀ target ∈ default :: targets, labels.Marks target
  | .lookupSwitch default keys targets =>
    keys.length = targets.length ∧
      ∀ target ∈ default :: targets, labels.Marks target
  | _ => True

end Instruction

namespace Assembly

variable {labels : Labels} {insn : Instruction}

theorem marks_of_tableTargets {groups : List (List Text)} {targets : List Int64}
    (h : tableTargets labels groups = .ok targets) :
    targets.length = groups.length ∧
      ∀ target ∈ targets, labels.Marks target := by
  induction groups generalizing targets with
  | nil =>
      cases h
      simp
  | cons group groups ih =>
      obtain ⟨target, htarget, h⟩ := bind_eq_ok_iff.mp h
      obtain ⟨rest, hrest, heq⟩ := bind_eq_ok_iff.mp h
      cases heq
      obtain ⟨hlength, hmarks⟩ := ih hrest
      exact ⟨by simp [hlength], List.forall_mem_cons.mpr ⟨⟨_, htarget⟩, hmarks⟩⟩

theorem marks_of_lookupCases {groups : List (List Text)}
    {pairs : List (Int64 × Int64)} (h : lookupCases labels groups = .ok pairs) :
    ∀ target ∈ pairs.map (·.2), labels.Marks target := by
  induction groups generalizing pairs with
  | nil =>
      cases h
      simp
  | cons group groups ih =>
      obtain ⟨pair, hpair, h⟩ := bind_eq_ok_iff.mp h
      obtain ⟨rest, hrest, heq⟩ := bind_eq_ok_iff.mp h
      cases heq
      refine List.forall_mem_cons.mpr ⟨?_, ih hrest⟩
      rw [lookupCase] at hpair
      split at hpair
      · split at hpair
        · cases hpair
        · obtain ⟨target, htarget, heq⟩ := bind_eq_ok_iff.mp hpair
          cases heq
          exact ⟨_, htarget⟩
      · cases hpair

theorem marks_of_defaultTarget {mnemonic : Text} {fields : List Text}
    {target : Int64} (h : defaultTarget labels mnemonic fields = .ok target) :
    labels.Marks target := by
  rw [defaultTarget] at h
  split at h
  · split_ifs at h
    exact ⟨_, h⟩
  · cases h

theorem le_of_tableRange {operands : List Text} {min max : Int64}
    (h : tableRange operands = .ok (min, max)) : min.toInt ≤ max.toInt := by
  unfold tableRange at h
  split at h
  · split at h
    · split_ifs at h with hlt
      cases h
      exact not_lt.mp hlt
    · cases h
  · cases h

theorem length_splitBars_le (args : List Text) :
    (splitBars args).length ≤ args.length + 1 := by
  have hpieces := length_flatten_add_length bar (List.splitOn_ne_nil bar args)
  rw [List.intercalate_splitOn] at hpieces
  rw [splitBars_eq]
  omega

/-- A switch that can be read has one group of fields for each case before its
default case. -/
theorem exists_groups_of_switch {isTable : Bool} {mnemonic : Text}
    {args : List Text} (h : switch labels isTable mnemonic args = .ok insn) :
    ∃ operands groups last, splitBars args = operands :: (groups ++ [last]) ∧
      groups.length < args.length := by
  have hlength := length_splitBars_le args
  cases hsplit : splitBars args with
  | nil =>
      rw [switch, hsplit] at h
      cases h
  | cons operands rest =>
      rcases List.eq_nil_or_concat rest with rfl | ⟨groups, last, rfl⟩
      · rw [switch, hsplit] at h
        cases h
      · refine ⟨operands, groups, last, by rw [List.concat_eq_append], ?_⟩
        rw [hsplit, List.length_cons, List.length_concat] at hlength
        omega

theorem tableSwitch_eq_ok {mnemonic : Text} {args : List Text}
    (h : switch labels true mnemonic args = .ok insn) :
    insn.fits = true ∧ insn.MarkedBy labels args.length := by
  obtain ⟨operands, groups, last, hsplit, hlt⟩ := exists_groups_of_switch h
  rw [switch_eq hsplit] at h
  obtain ⟨default, hdefault, h⟩ := bind_eq_ok_iff.mp h
  obtain ⟨⟨min, max⟩, hrange, h⟩ := bind_eq_ok_iff.mp h
  obtain ⟨targets, htargets, heq⟩ := bind_eq_ok_iff.mp h
  cases heq
  obtain ⟨hlength, hmarks⟩ := marks_of_tableTargets htargets
  refine ⟨Instruction.fits_iff.mpr ⟨_, Opcode.form?_tableswitch, rfl⟩,
    le_of_tableRange hrange, by omega, ?_⟩
  exact List.forall_mem_cons.mpr ⟨marks_of_defaultTarget hdefault, hmarks⟩

theorem lookupSwitch_eq_ok {mnemonic : Text} {args : List Text}
    (h : switch labels false mnemonic args = .ok insn) :
    insn.fits = true ∧ insn.MarkedBy labels args.length := by
  obtain ⟨operands, groups, last, hsplit, -⟩ := exists_groups_of_switch h
  rw [switch_eq hsplit] at h
  obtain ⟨default, hdefault, h⟩ := bind_eq_ok_iff.mp h
  obtain ⟨pairs, hpairs, heq⟩ := bind_eq_ok_iff.mp h
  cases heq
  refine ⟨Instruction.fits_iff.mpr ⟨_, Opcode.form?_lookupswitch, rfl⟩, by simp,
    ?_⟩
  exact List.forall_mem_cons.mpr ⟨marks_of_defaultTarget hdefault,
    marks_of_lookupCases hpairs⟩

/-- An instruction that is read by its opcode has operands that go with it. -/
theorem withOperands_eq_ok {op : Opcode} {form : Form} {mnemonic : Text}
    {args : List Text} (hform : op.form? = some form) (hfolded : form ≠ .folded)
    (h : withOperands labels op mnemonic args = .ok insn) :
    insn.fits = true ∧ insn.MarkedBy labels args.length := by
  have hfits : ∀ insn' : Instruction, insn'.opcode = op →
      form.takes insn' = true → insn'.fits = true :=
    fun insn' hop htakes => Instruction.fits_iff.mpr ⟨form, hop ▸ hform, htakes⟩
  unfold withOperands at h
  rw [hform] at h
  cases form with
  | folded => exact absurd rfl hfolded
  | tableSwitch => exact tableSwitch_eq_ok h
  | lookupSwitch => exact lookupSwitch_eq_ok h
  | plain e =>
      dsimp only at h
      split_ifs at h
      cases h
      exact ⟨hfits _ rfl rfl, trivial⟩
  | pushInt | load _ | store _ | ret =>
      cases args with
      | nil => cases h
      | cons n args =>
          obtain ⟨k, -, heq⟩ := bind_eq_ok_iff.mp h
          cases heq
          exact ⟨hfits _ rfl rfl, trivial⟩
  | newArray =>
      cases args with
      | nil => cases h
      | cons element args =>
          dsimp only at h
          split at h
          · cases h
            exact ⟨hfits _ rfl rfl, trivial⟩
          · cases h
  | typed e =>
      cases args with
      | nil => cases h
      | cons desc args =>
          cases h
          exact ⟨hfits _ rfl rfl, trivial⟩
  | jump e =>
      cases args with
      | nil => cases h
      | cons label args =>
          obtain ⟨target, htarget, heq⟩ := bind_eq_ok_iff.mp h
          cases heq
          exact ⟨hfits _ rfl rfl, label, htarget⟩
  | field access =>
      dsimp only at h
      split at h
      · split at h
        · cases h
          exact ⟨hfits _ rfl rfl, trivial⟩
        · cases h
      · cases h
  | invoke receiver =>
      dsimp only at h
      split at h
      · split at h
        · split at h
          · cases h
            exact ⟨hfits _ rfl rfl, trivial⟩
          · cases h
        · cases h
      · cases h
  -- The opcodes of the remaining forms are not kept with the operands.
  | increment =>
      dsimp only at h
      split at h
      · obtain ⟨i, -, h⟩ := bind_eq_ok_iff.mp h
        obtain ⟨a, -, heq⟩ := bind_eq_ok_iff.mp h
        cases heq
        exact ⟨Instruction.fits_iff.mpr ⟨_, Opcode.form?_iinc, rfl⟩, trivial⟩
      · cases h
  | dynamic =>
      have hdynamic : ∃ name desc, insn = .dynamic name desc := by
        dsimp only at h
        split at h
        · cases h
          exact ⟨_, _, rfl⟩
        · split at h
          · split_ifs at h
            cases h
            exact ⟨_, _, rfl⟩
          · cases h
        · cases h
      obtain ⟨name, desc, rfl⟩ := hdynamic
      exact ⟨Instruction.fits_iff.mpr ⟨_, Opcode.form?_invokedynamic, rfl⟩,
        trivial⟩
  | constant =>
      cases args with
      | nil => cases h
      | cons operand args =>
          cases h
          exact ⟨Instruction.fits_iff.mpr ⟨_, Opcode.form?_ldc, rfl⟩, trivial⟩
  | multiArray =>
      dsimp only at h
      split at h
      · obtain ⟨dims, -, heq⟩ := bind_eq_ok_iff.mp h
        cases heq
        exact ⟨Instruction.fits_iff.mpr ⟨_, Opcode.form?_multianewarray, rfl⟩,
          trivial⟩
      · cases h

/-- A short form stands for a load or store of a local variable, or is
misread. -/
theorem shortForm?_cases {t base : Text} {index : Int64} {op : Opcode}
    (hshort : shortForm? t = some (base, index))
    (hop : Opcode.ofMnemonic? base = some op) :
    (∃ form, op.form? = some form ∧ Opcode.accessesLocal form = true) ∨
      op.isArrayAccess = true ∧
      (Instruction.var op index).isMisread = true := by
  obtain ⟨digit, -, -, -, hhigh, hends, rfl⟩ := shortForm?_eq_some_iff.mp hshort
  refine (Opcode.form?_of_endsLikeAccess hop hends).imp_right fun harray =>
    ⟨harray, ?_⟩
  have hdigit : digit.toNat ≤ 51 := UInt8.le_iff_toNat_le.mp hhigh
  have hindex : (Int64.ofNat (digit.toNat - 48)).toInt =
      (digit.toNat - 48 : Nat) :=
    Int64.toInt_ofNat_of_lt (by omega)
  simp only [Instruction.isMisread, harray, hindex, Bool.true_and,
    Bool.and_eq_true, decide_eq_true_eq]
  omega

theorem fits_of_accessesLocal {op : Opcode} {form : Form} {index : Int64}
    (hform : op.form? = some form) (hlocal : Opcode.accessesLocal form = true) :
    (Instruction.var op index).fits = true := by
  refine Instruction.fits_iff.mpr ⟨form, hform, ?_⟩
  cases form <;> first | rfl | cases hlocal

/-- What a line stands for: an instruction whose operands go with its opcode and
whose targets are marked, or an access to an array element that is taken for one
to a local variable. -/
theorem instruction_eq_ok {line : Line}
    (h : instruction labels line = .ok insn) :
    insn.isMisread = true ∨ insn.fits = true ∧
      insn.MarkedBy labels line.args.length := by
  rw [instruction] at h
  split at h
  -- A short form is told by the end of its mnemonic alone, before the table is
  -- asked.
  · rename_i base index hshort
    split at h
    · rename_i op hop
      cases h
      rcases shortForm?_cases hshort hop with ⟨form, hform, hlocal⟩ |
        ⟨-, hmisread⟩
      · exact .inr ⟨fits_of_accessesLocal hform hlocal, trivial⟩
      · exact .inl hmisread
    · cases h
  · rename_i hshort
    split at h
    · rename_i op hop
      obtain ⟨form, hform, hfolded⟩ :=
        Opcode.exists_form_of_decodedOpcode? hshort hop
      exact .inr (withOperands_eq_ok hform hfolded h)
    · cases h

/-! ## Targets -/

/-- Labels of a method whose positions can be counted, none of them beyond its
end. -/
structure Labels.Sound (labels : Labels) : Prop where
  length : labels.length < 2 ^ 63
  positions : ∀ entry ∈ labels.positions, entry.2 ≤ labels.length

theorem Labels.Sound.inside_of_target {allowEnd : Bool} {label : Text}
    {pos : Int64} (hs : labels.Sound)
    (h : labels.target allowEnd label = .ok pos) :
    Inside (if allowEnd then labels.length + 1 else labels.length) pos := by
  rw [Labels.target] at h
  split at h
  · cases h
  · rename_i n hlookup
    split_ifs at h with hend
    cases h
    obtain ⟨before, after, hentries, -⟩ := List.lookup_eq_some_iff.mp hlookup
    have hle : n ≤ labels.length := hs.positions (label, n) (by simp [hentries])
    have hlength := hs.length
    rw [Inside, Int64.toInt_ofNat_of_lt (by omega)]
    split_ifs with hallow
    · omega
    · have hne : n ≠ labels.length := fun heq => hend ⟨heq, hallow⟩
      omega

theorem Labels.Sound.inside_of_marks {pos : Int64} (hs : labels.Sound)
    (h : labels.Marks pos) : Inside labels.length pos := by
  obtain ⟨label, hlabel⟩ := h
  simpa using hs.inside_of_target hlabel

theorem Labels.Sound.resolved_of_handler {line : Line} {entry : Handler}
    (hs : labels.Sound) (h : handler labels line = .ok entry) :
    entry.Resolved labels.length := by
  unfold handler at h
  split at h
  · split at h
    · obtain ⟨start, hstart, h⟩ := bind_eq_ok_iff.mp h
      obtain ⟨stop, hstop, h⟩ := bind_eq_ok_iff.mp h
      obtain ⟨target, htarget, heq⟩ := bind_eq_ok_iff.mp h
      cases heq
      exact ⟨hs.inside_of_target hstart, hs.inside_of_target hstop,
        hs.inside_of_target htarget⟩
    · cases h
  · cases h

theorem Labels.Sound.resolved_of_instruction {line : Line} (hs : labels.Sound)
    (h : Assembly.instruction labels line = .ok insn) :
    insn.Resolved labels.length := by
  have hmarked : insn.isMisread = true ∨
      insn.MarkedBy labels line.args.length :=
    (instruction_eq_ok h).imp_right And.right
  cases insn with
  | jump op target =>
      rcases hmarked with hmisread | hmarked
      · cases hmisread
      · exact hs.inside_of_marks hmarked
  | tableSwitch min max default targets =>
      rcases hmarked with hmisread | ⟨hrange, -, hmarks⟩
      · cases hmisread
      · exact ⟨hrange, fun target htarget =>
          hs.inside_of_marks (hmarks target htarget)⟩
  | lookupSwitch default keys targets =>
      rcases hmarked with hmisread | ⟨hlength, hmarks⟩
      · cases hmisread
      · exact ⟨hlength, fun target htarget =>
          hs.inside_of_marks (hmarks target htarget)⟩
  | _ => trivial

end Assembly

/-- A method whose control flow has been resolved: its bounds are not negative,
and all positions that its instructions and its exception table name are its
own. -/
structure Method.Resolved (m : Method) : Prop where
  maxStack : 0 ≤ m.maxStack.toInt
  maxLocals : 0 ≤ m.maxLocals.toInt
  instructions : ∀ insn ∈ m.instructions, insn.Resolved m.instructions.length
  handlers : ∀ h ∈ m.handlers, h.Resolved m.instructions.length

namespace Assembly

/-- Every instruction of an assembled method comes from a line that starts with
a field of the source text. -/
theorem exists_line_of_parse {source : Text} {ms : List Method}
    (h : parse source = .ok ms) :
    ∀ m ∈ ms, ∀ insn ∈ m.instructions, ∃ labels line,
      line.From (readLines source) ∧ instruction labels line = .ok insn := by
  intro m hm insn hinsn
  obtain ⟨draft, hdraft, hfinish⟩ := exists_draft_of_parse h m hm
  obtain ⟨insns, handlers, hinsns, -, rfl⟩ := Draft.finish_eq_ok_iff.mp hfinish
  obtain ⟨line, hline, hresolve⟩ := hinsns.exists_line hinsn
  exact ⟨_, line, hdraft.body line (Array.mem_toList_iff.mp hline), hresolve⟩

/-- The control flow of an assembled method has been resolved. -/
theorem resolved_of_parse {source : Text} {ms : List Method}
    (hsize : source.length < 2 ^ 63) (h : parse source = .ok ms) :
    ∀ m ∈ ms, m.Resolved := by
  intro m hm
  have hvolume := volume_readLines_le source
  obtain ⟨draft, hdraft, hfinish⟩ := exists_draft_of_parse h m hm
  obtain ⟨insns, handlers, hinsns, hhandlers, rfl⟩ :=
    Draft.finish_eq_ok_iff.mp hfinish
  have hlength : insns.length = draft.body.size := hinsns.length_eq.symm
  have hbody : draft.body.size < 2 ^ 63 := by
    have := hdraft.size
    omega
  have hsound : Labels.Sound ⟨draft.labels, draft.body.size⟩ :=
    ⟨hbody, hdraft.labels⟩
  refine ⟨hdraft.maxStack, hdraft.maxLocals, ?_, ?_⟩
  · intro insn hinsn
    obtain ⟨line, -, hline⟩ := hinsns.exists_line hinsn
    rw [hlength]
    exact hsound.resolved_of_instruction hline
  · intro entry hentry
    obtain ⟨line, -, hline⟩ := hhandlers.exists_line hentry
    rw [hlength]
    exact hsound.resolved_of_handler hline

/-- No assembled switch has more cases than can be counted. -/
theorem length_targets_lt_of_parse {source : Text} {ms : List Method}
    (hsize : source.length < 2 ^ 63) (h : parse source = .ok ms) {m : Method}
    (hm : m ∈ ms) {min max default : Int64} {targets : List Int64}
    (hinsn : .tableSwitch min max default targets ∈ m.instructions) :
    targets.length < 2 ^ 63 := by
  have hvolume := volume_readLines_le source
  obtain ⟨labels, line, hfrom, hline⟩ := exists_line_of_parse h m hm _ hinsn
  rcases instruction_eq_ok hline with hmisread | ⟨-, -, hlt, -⟩
  · cases hmisread
  · have := hfrom.args
    omega

end Assembly
end Nullness
