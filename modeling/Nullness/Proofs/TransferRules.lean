import Nullness.Proofs.Assembled
import Nullness.Transfer

/-!
# Which assembled instructions have a transfer rule

An instruction has a transfer rule if its operands go with its opcode.  That is
the case for everything the assembler accepts, with one exception: a load or
store of an array element with the number of a local variable at its end, such
as `iaload_0`, is no mnemonic of the machine, but is assembled as an access to
that local variable, and no frame can be carried through the result.  Every
other text that is no mnemonic is refused as an unknown instruction.
-/

namespace Nullness

namespace Opcode

open Assembly

/-! ## Short forms -/

/-- The loads and stores of local variables. -/
def localAccesses : List Opcode :=
  [⟨21⟩, ⟨22⟩, ⟨23⟩, ⟨24⟩, ⟨25⟩, ⟨54⟩, ⟨55⟩, ⟨56⟩, ⟨57⟩, ⟨58⟩]

/-- The loads and stores of array elements. -/
def arrayAccesses : List Opcode :=
  [⟨46⟩, ⟨47⟩, ⟨48⟩, ⟨49⟩, ⟨50⟩, ⟨51⟩, ⟨52⟩, ⟨53⟩,
    ⟨79⟩, ⟨80⟩, ⟨81⟩, ⟨82⟩, ⟨83⟩, ⟨84⟩, ⟨85⟩, ⟨86⟩]

/-- The mnemonic of an opcode with the number of each of the first four local
variables at its end. -/
def shortForms (op : Opcode) : List Text :=
  (text "0123").map fun digit => op.name ++ [byte '_', digit]

/-- A load or store of an array element that is written like a short form. -/
def IsMisreadMnemonic (t : Text) : Prop :=
  ∃ op ∈ arrayAccesses, t ∈ op.shortForms

/-- The table has the short forms of the loads and of the stores one after
another. -/
theorem shortForms_eq :
    (mnemonics.drop 26).take 20 ++ (mnemonics.drop 59).take 20 =
      localAccesses.flatMap shortForms := by
  decide

theorem mem_mnemonics_of_mem_shortForms {op : Opcode} {t : Text}
    (hop : op ∈ localAccesses) (ht : t ∈ op.shortForms) : t ∈ mnemonics := by
  have hmem : t ∈ localAccesses.flatMap shortForms :=
    List.mem_flatMap.mpr ⟨op, hop, ht⟩
  rw [← shortForms_eq] at hmem
  rcases List.mem_append.mp hmem with hmem | hmem
  · exact List.mem_of_mem_drop (List.mem_of_mem_take hmem)
  · exact List.mem_of_mem_drop (List.mem_of_mem_take hmem)

theorem mem_localAccesses {op : Opcode} {form : Form} (h : op.form? = some form)
    (hlocal : accessesLocal form = true) : op ∈ localAccesses := by
  have htable : ∀ entry ∈ table.zipIdx, accessesLocal entry.1.2 = true →
      (⟨entry.2⟩ : Opcode) ∈ localAccesses := by
    decide +kernel
  obtain ⟨mnemonic, hrow, -⟩ := exists_row_of_form? h
  obtain ⟨i, rfl, hentry⟩ := exists_entry_of_row? hrow
  exact htable _ hentry hlocal

theorem mem_arrayAccesses {op : Opcode} (h : op.isArrayAccess = true) :
    op ∈ arrayAccesses := by
  obtain ⟨code⟩ := op
  simp only [isArrayAccess, Bool.or_eq_true, Bool.and_eq_true,
    decide_eq_true_eq] at h
  rcases h with ⟨hlow, hhigh⟩ | ⟨hlow, hhigh⟩
  · interval_cases code <;> decide
  · interval_cases code <;> decide

theorem form?_of_isArrayAccess {op : Opcode} (h : op.isArrayAccess = true) :
    ∃ e, op.form? = some (.plain e) := by
  obtain ⟨code⟩ := op
  simp only [isArrayAccess, Bool.or_eq_true, Bool.and_eq_true,
    decide_eq_true_eq] at h
  rcases h with ⟨hlow, hhigh⟩ | ⟨hlow, hhigh⟩
  · interval_cases code <;> exact ⟨_, rfl⟩
  · interval_cases code <;> exact ⟨_, rfl⟩

theorem mem_shortForms {op : Opcode} {digit : UInt8} (hlow : byte '0' ≤ digit)
    (hhigh : digit ≤ byte '3') :
    op.name ++ [byte '_', digit] ∈ op.shortForms := by
  have hdigits : ∀ n < 4, UInt8.ofNat (n + 48) ∈ text "0123" := by decide
  have hlow : 48 ≤ digit.toNat := UInt8.le_iff_toNat_le.mp hlow
  have hhigh : digit.toNat ≤ 51 := UInt8.le_iff_toNat_le.mp hhigh
  have hdigit := hdigits (digit.toNat - 48) (by omega)
  rw [Nat.sub_add_cancel hlow, UInt8.ofNat_toNat] at hdigit
  exact List.mem_map.mpr ⟨digit, hdigit, rfl⟩

/-- A load or store of an array element passes for a short form. -/
theorem shortForm?_of_mem_shortForms {op : Opcode} {t : Text}
    (hop : op ∈ arrayAccesses) (ht : t ∈ op.shortForms) :
    ∃ index, shortForm? t = some (op.name, index) ∧
      ofMnemonic? op.name = some op := by
  have hspelled : ∀ op ∈ arrayAccesses, op.mnemonic? = some op.name ∧
      byte '_' ∉ op.name ∧ endsLikeAccess op.name = true := by
    decide
  have hdigits : (text "0123").all (fun d => byte '0' ≤ d ∧ d ≤ byte '3') =
      true := by decide
  obtain ⟨hmnemonic, hunderscore, hends⟩ := hspelled op hop
  obtain ⟨digit, hdigit, rfl⟩ := List.mem_map.mp ht
  obtain ⟨hlow, hhigh⟩ :=
    of_decide_eq_true (List.all_eq_true.mp hdigits digit hdigit)
  exact ⟨_, shortForm?_eq_some_iff.mpr ⟨digit, rfl, hunderscore, hlow, hhigh,
    hends, rfl⟩, ofMnemonic?_eq_some_iff.mpr hmnemonic⟩

theorem mem_mnemonics_of_ofMnemonic? {t : Text} {op : Opcode}
    (h : ofMnemonic? t = some op) : t ∈ mnemonics := by
  rw [ofMnemonic?_eq_some_iff, mnemonic?] at h
  split_ifs at h
  exact List.mem_of_getElem? h

theorem name_of_ofMnemonic? {t : Text} {op : Opcode}
    (h : ofMnemonic? t = some op) :
    op.name = t := by
  rw [name, ofMnemonic?_eq_some_iff.mp h]

theorem mem_mnemonics_of_decodedOpcode? {t : Text} {op : Opcode}
    (h : decodedOpcode? t = some op) : t ∈ mnemonics ∧ t ≠ wideMark := by
  rw [decodedOpcode?] at h
  split at h
  · rename_i op' hwide
    have hvariants : ∀ entry ∈ wideVariants, entry.1 ≠ wideMark ∧
        ∃ i ∈ [19, 20, 200, 201], mnemonics[i]? = some entry.1 := by
      decide
    obtain ⟨before, after, hentries, -⟩ := List.lookup_eq_some_iff.mp hwide
    obtain ⟨hmark, i, -, hi⟩ := hvariants (t, op') (by simp [hentries])
    exact ⟨List.mem_of_getElem? hi, hmark⟩
  · split_ifs at h with hmark
    exact ⟨mem_mnemonics_of_ofMnemonic? h, hmark⟩

end Opcode

namespace Assembly

open Opcode

variable {labels : Labels} {line : Line} {insn : Instruction}

/-! ## What is accepted -/

theorem mem_shortForms_of_shortForm? {t base : Text} {index : Int64}
    {op : Opcode} (hshort : shortForm? t = some (base, index))
    (hop : ofMnemonic? base = some op) :
    t ∈ op.shortForms := by
  obtain ⟨digit, rfl, -, hlow, hhigh, -⟩ := shortForm?_eq_some_iff.mp hshort
  rw [← name_of_ofMnemonic? hop]
  exact mem_shortForms hlow hhigh

/-- A line starts with a mnemonic that is misread, with one of the machine, or
is refused as an unknown instruction. -/
theorem instruction_cases (labels : Labels) (line : Line) :
    (IsMisreadMnemonic line.head ∧
      ∃ insn, instruction labels line = .ok insn ∧ insn.isMisread = true) ∨
    (line.head ∈ mnemonics ∧ line.head ≠ wideMark ∧
      ∀ insn, instruction labels line = .ok insn → insn.fits = true) ∨
    instruction labels line =
      .error (.error (.unknownInstruction line.head)) := by
  cases hshort : shortForm? line.head with
  | some short =>
      obtain ⟨base, index⟩ := short
      cases hop : ofMnemonic? base with
      | some op =>
          have hmem := mem_shortForms_of_shortForm? hshort hop
          have hvar : instruction labels line = .ok (.var op index) := by
            simp only [instruction, hshort, hop]
          rcases shortForm?_cases hshort hop with ⟨form, hform, hlocal⟩ |
            ⟨harray, hmisread⟩
          · have hmark : line.head ≠ wideMark := by
              intro hmark
              rw [hmark] at hshort
              cases hshort
            have hmnemonic := mem_mnemonics_of_mem_shortForms
              (mem_localAccesses hform hlocal) hmem
            refine .inr (.inl ⟨hmnemonic, hmark, fun insn hinsn => ?_⟩)
            rw [hvar] at hinsn
            cases hinsn
            exact fits_of_accessesLocal hform hlocal
          · exact .inl ⟨⟨op, mem_arrayAccesses harray, hmem⟩, _, hvar, hmisread⟩
      | none =>
          refine .inr (.inr ?_)
          simp only [instruction, hshort, hop]
  | none =>
      cases hop : decodedOpcode? line.head with
      | some op =>
          obtain ⟨form, hform, hfolded⟩ :=
            exists_form_of_decodedOpcode? hshort hop
          obtain ⟨hmem, hmark⟩ := mem_mnemonics_of_decodedOpcode? hop
          refine .inr (.inl ⟨hmem, hmark, fun insn hinsn => ?_⟩)
          simp only [instruction, hshort, hop] at hinsn
          exact (withOperands_eq_ok hform hfolded hinsn).1
      | none =>
          refine .inr (.inr ?_)
          simp only [instruction, hshort, hop]

/-- Every load or store of an array element that is written like a short form is
misread. -/
theorem instruction_of_isMisreadMnemonic {line : Line}
    (h : IsMisreadMnemonic line.head) (labels : Labels) :
    ∃ insn, instruction labels line = .ok insn ∧ insn.isMisread = true := by
  have haccess : ∀ op ∈ arrayAccesses, op.isArrayAccess = true := by decide
  obtain ⟨op, hop, hmem⟩ := h
  obtain ⟨index, hshort, hname⟩ := shortForm?_of_mem_shortForms hop hmem
  obtain ⟨e, hplain⟩ := form?_of_isArrayAccess (haccess op hop)
  refine ⟨.var op index, by simp only [instruction, hshort, hname], ?_⟩
  rcases shortForm?_cases hshort hname with ⟨form, hform, hlocal⟩ |
    ⟨-, hmisread⟩
  · rw [hplain] at hform
    cases hform
    cases hlocal
  · exact hmisread

end Assembly

/-! ## Transfer rules -/

namespace Transfer

/-- Whether there is a rule does not depend on the frame. -/
theorem step_eq_noRule_iff {f : Frame} {insn e : Instruction} :
    step f insn = .error (.error (.noRule e)) ↔
      effect insn = .error (.noRule e) := by
  rw [step]
  cases effect insn with
  | error error => simp
  | ok effect =>
      dsimp only
      cases effect.run f with
      | ok _ after => simp
      | error failure _ => cases failure <;> simp [Failure.map]

/-- An instruction whose operands go with its opcode has a rule. -/
theorem effect_ne_noRule_of_fits {insn e : Instruction} (h : insn.fits = true) :
    effect insn ≠ .error (.noRule e) := by
  obtain ⟨form, hform, htakes⟩ := Instruction.fits_iff.mp h
  cases insn with
  | plain op | int op operand | var op index | typed op desc | jump op target =>
      have hform : op.form? = some form := hform
      cases form <;> cases htakes <;> simp [effect, hform]
  | field op owner name desc =>
      have hform : op.form? = some form := hform
      cases form <;> cases htakes
      rw [effect, hform]
      split <;> simp
  | method op owner name desc isInterface =>
      have hform : op.form? = some form := hform
      cases form <;> cases htakes
      rw [effect, hform]
      split
      · simp
      · split_ifs <;> simp
  | dynamic name desc =>
      rw [effect]
      split <;> simp
  | multiArray desc dims =>
      rw [effect]
      split
      · simp
      · split_ifs <;> simp
  | increment _ _ | constant _ | tableSwitch _ _ _ _ | lookupSwitch _ _ _ =>
      simp [effect]

theorem effect_of_isMisread {insn : Instruction} (h : insn.isMisread = true) :
    effect insn = .error (.noRule insn) := by
  cases insn with
  | var op index =>
      simp only [Instruction.isMisread, Bool.and_eq_true,
        decide_eq_true_eq] at h
      obtain ⟨e, hform⟩ := Opcode.form?_of_isArrayAccess h.1.1
      simp only [effect, hform]
  | _ => cases h

theorem isMisread_eq_false_of_fits {insn : Instruction} (h : insn.fits = true) :
    insn.isMisread = false := by
  by_contra hne
  have hmisread : insn.isMisread = true := by simpa using hne
  exact effect_ne_noRule_of_fits h (effect_of_isMisread hmisread)

end Transfer

namespace Assembly

open Opcode

theorem lacks_rule_iff_of_instruction {labels : Labels} {line : Line}
    {insn : Instruction} (h : instruction labels line = .ok insn) (f : Frame) :
    (∃ e, Transfer.step f insn = .error (.error (.noRule e))) ↔
      insn.isMisread = true := by
  simp only [Transfer.step_eq_noRule_iff]
  constructor
  · rintro ⟨e, he⟩
    rcases instruction_eq_ok h with hmisread | ⟨hfits, -⟩
    · exact hmisread
    · exact absurd he (Transfer.effect_ne_noRule_of_fits hfits)
  · exact fun hmisread => ⟨insn, Transfer.effect_of_isMisread hmisread⟩

/-- What has a transfer rule among what the assembler accepts: an instruction of
an assembled method lacks one, for whatever frame, exactly if it is a misread
access to an array element.  Every instruction comes from a mnemonic of the
machine or from one of those, all of which are assembled; everything else is
refused as unknown. -/
theorem assembled_lacks_rule_iff_misread (source : Text) (ms : List Method)
    (h : parse source = .ok ms) :
    (∀ m ∈ ms, ∀ insn ∈ m.instructions,
      (∀ f : Frame, (∃ e, Transfer.step f insn = .error (.error (.noRule e))) ↔
        insn.isMisread = true) ∧
      ∃ labels line,
        (∃ read ∈ readLines source, line.head ∈ read.head :: read.args) ∧
        instruction labels line = .ok insn ∧
        (line.head ∈ mnemonics ∧ insn.isMisread = false ∨
          IsMisreadMnemonic line.head ∧ insn.isMisread = true)) ∧
    ∀ labels line,
      (IsMisreadMnemonic line.head →
        ∃ insn, instruction labels line = .ok insn ∧ insn.isMisread = true) ∧
      (line.head ∉ mnemonics → ¬ IsMisreadMnemonic line.head →
        instruction labels line =
          .error (.error (.unknownInstruction line.head))) := by
  refine ⟨fun m hm insn hinsn => ?_, fun labels line =>
    ⟨fun hhead => instruction_of_isMisreadMnemonic hhead labels,
      fun hnone hhead => ?_⟩⟩
  · obtain ⟨labels, line, hfrom, hline⟩ :=
      exists_line_of_parse h m hm insn hinsn
    refine ⟨lacks_rule_iff_of_instruction hline, labels, line, hfrom.head,
      hline, ?_⟩
    rcases instruction_cases labels line with ⟨hhead, insn', hinsn', hmisread⟩ |
      ⟨hhead, -, hfits⟩ | hunknown
    · rw [hline] at hinsn'
      cases hinsn'
      exact .inr ⟨hhead, hmisread⟩
    · exact .inl ⟨hhead, Transfer.isMisread_eq_false_of_fits (hfits insn hline)⟩
    · rw [hline] at hunknown
      cases hunknown
  · rcases instruction_cases labels line with ⟨hmisread, -⟩ | ⟨hmem, -⟩ |
      hunknown
    · exact absurd hmisread hhead
    · exact absurd hmem hnone
    · exact hunknown

/-- A source text with an access to an array element that is misread. -/
def misreadSource : Text :=
  Text.join (text "\n") [text ".method static first([I)I",
    text ".limit stack 2", text ".limit locals 1", text "aload_0",
    text "iconst_0", text "iaload_0", text "ireturn", text ".end method"]

/-- The method that is assembled from it. -/
def misreadMethod : Method where
  owner := []
  name := text "first"
  desc := text "([I)I"
  isStatic := true
  maxStack := 2
  maxLocals := 1
  instructions := [.var ⟨25⟩ 0, .plain ⟨3⟩, .var ⟨46⟩ 0, .plain ⟨172⟩]
  handlers := []
  params := []

theorem parse_misreadSource : parse misreadSource = .ok [misreadMethod] := by
  decide +kernel

/-- Of the instructions of `misreadMethod`, the third one alone lacks a rule. -/
theorem misreadMethod_lacks_rule :
    parse misreadSource = .ok [misreadMethod] ∧
      ∀ f : Frame, ∀ insn ∈ misreadMethod.instructions,
        (∃ e, Transfer.step f insn = .error (.error (.noRule e))) ↔
          insn = .var ⟨46⟩ 0 := by
  refine ⟨parse_misreadSource, fun f insn hinsn => ?_⟩
  have hmisread : ∀ insn ∈ misreadMethod.instructions,
      insn.isMisread = true ↔ insn = .var ⟨46⟩ 0 := by
    decide
  have hrule :=
    assembled_lacks_rule_iff_misread misreadSource _ parse_misreadSource
  rw [(hrule.1 misreadMethod (by simp) insn hinsn).1 f, hmisread insn hinsn]

end Assembly

end Nullness
