import Nullness.Proofs.Tokens
import Mathlib.Data.List.Nodup

/-!
# Opcodes and their mnemonics

The table of opcodes gives every opcode a mnemonic, and no two opcodes the same
one, so that a mnemonic leads back to its opcode.  How a mnemonic is understood
at the start of a line is a question of its spelling: it can be taken for a
label, for a directive, for a short form of a load or store, or for a wide
variant.  What matters about the spellings is decided here once for the whole
table.

An opcode that is not folded into another one is read back from its mnemonic.
The short forms are recognised by the end of their mnemonic, and there the loads
and stores of array elements look like those of local variables.
-/

namespace Nullness
namespace Opcode

open Assembly

/-! ## Rows of the table -/

theorem row?_eq_some_iff {op : Opcode} {row : String × Form} :
    op.row? = some row ↔ 0 ≤ op.code ∧ table[op.code.toNat]? = some row := by
  rw [row?]
  split_ifs with h <;> simp <;> omega

/-- The row of an opcode stands in the table at its code. -/
theorem exists_entry_of_row? {op : Opcode} {row : String × Form}
    (h : op.row? = some row) :
    ∃ i : Nat, op = ⟨i⟩ ∧ (row, i) ∈ table.zipIdx := by
  obtain ⟨hcode, hrow⟩ := row?_eq_some_iff.mp h
  refine ⟨op.code.toNat, ?_, List.mem_zipIdx_iff_getElem?.mpr hrow⟩
  rw [Int.toNat_of_nonneg hcode]

theorem mnemonic?_eq_map (op : Opcode) :
    op.mnemonic? = op.row?.map fun row => text row.1 := by
  rw [mnemonic?, row?]
  split_ifs with h
  · rfl
  · rw [mnemonics, List.getElem?_map]

theorem exists_row_of_form? {op : Opcode} {form : Form}
    (h : op.form? = some form) :
    ∃ mnemonic, op.row? = some (mnemonic, form) ∧ op.name = text mnemonic := by
  obtain ⟨⟨mnemonic, form'⟩, hrow, rfl⟩ := Option.map_eq_some_iff.mp h
  refine ⟨mnemonic, hrow, ?_⟩
  rw [name, mnemonic?_eq_map, hrow]
  rfl

/-! The opcodes that instructions do not carry with them. -/

theorem form?_iinc : iinc.form? = some .increment := by
  rfl

theorem form?_ldc : ldc.form? = some .constant := by
  rfl

theorem form?_tableswitch : tableswitch.form? = some .tableSwitch := by
  rfl

theorem form?_lookupswitch : lookupswitch.form? = some .lookupSwitch := by
  rfl

theorem form?_invokedynamic : invokedynamic.form? = some .dynamic := by
  rfl

theorem form?_multianewarray : multianewarray.form? = some .multiArray := by
  rfl

/-- A text as a number.  Numbers are told apart faster than texts. -/
def textKey (t : Text) : Nat := t.foldl (fun n b => 256 * n + b.toNat) 0

/-- The bytes of a string are the ones that it is stored as.  They can be
computed without decoding the string first. -/
theorem text_eq_toByteArray (s : String) :
    text s = s.toByteArray.data.toList := by
  conv_rhs => rw [← String.ofList_toList (s := s), String.toByteArray_ofList]
  simp [text, List.utf8Encode]

theorem nodup_mnemonics : mnemonics.Nodup := by
  have hkeys : (table.map fun row =>
      textKey row.1.toByteArray.data.toList).Nodup := by
    decide +kernel
  apply List.Nodup.of_map textKey
  rw [mnemonics, List.map_map]
  simpa only [Function.comp_def, text_eq_toByteArray] using hkeys

theorem ofMnemonic?_eq (t : Text) :
    ofMnemonic? t =
      (mnemonics.findIdx? (· == t)).map fun i : Nat => (⟨i⟩ : Opcode) := by
  rw [ofMnemonic?]
  cases mnemonics.findIdx? (· == t) <;> rfl

/-- Every mnemonic leads back to its opcode. -/
theorem ofMnemonic?_eq_some_iff {t : Text} {op : Opcode} :
    ofMnemonic? t = some op ↔ op.mnemonic? = some t := by
  rw [ofMnemonic?_eq, Option.map_eq_some_iff, mnemonic?]
  constructor
  · rintro ⟨i, hfind, rfl⟩
    obtain ⟨hi, heq, -⟩ := List.findIdx?_eq_some_iff_getElem.mp hfind
    have hnot : ¬ ((i : Int) < 0) := by omega
    rw [if_neg hnot, Int.toNat_natCast, List.getElem?_eq_getElem hi]
    exact congrArg some (by simpa using heq)
  · intro h
    split_ifs at h with hneg
    obtain ⟨hi, heq⟩ := List.getElem?_eq_some_iff.mp h
    refine ⟨op.code.toNat,
      List.findIdx?_eq_some_iff_getElem.mpr ⟨hi, by simp [heq], ?_⟩, ?_⟩
    · intro j hj
      have hne : mnemonics[j] ≠ mnemonics[op.code.toNat] := by
        intro hsame
        have := (nodup_mnemonics.getElem_inj_iff).mp hsame
        omega
      simpa [← heq] using hne
    · rw [Int.toNat_of_nonneg (by omega)]

/-! ## How the mnemonics of the table are spelled -/

/-- Whether an opcode loads or stores an array element. -/
def isArrayAccess (op : Opcode) : Bool :=
  (46 ≤ op.code && op.code ≤ 53) || (79 ≤ op.code && op.code ≤ 86)

/-- Whether a text ends as the loads and stores do that have short forms. -/
def endsLikeAccess (t : Text) : Bool :=
  Text.endsWith (text "load") t || Text.endsWith (text "store") t

/-- Whether the instructions of a form load or store a local variable. -/
def accessesLocal : Form → Bool
  | .load _ | .store _ => true
  | _ => false

/-- Whether a text at the start of a line of a method body is a mnemonic in its
own right: no label, directive or mark, no short form and no wide variant. -/
def standsForItself (t : Text) : Bool :=
  labelName? t = none && t.head? ≠ some (byte '.') && t ≠ wideMark
    && shortForm? t = none && wideVariants.lookup t = none

/-- Whether an opcode of a form may have a mnemonic.  An opcode that is not
folded has one that stands for itself, and the cases of a switch are looked for
after its mnemonic only.  An opcode that is folded has a mnemonic that leads to
another one.  An end like that of a load or store has no other meaning. -/
def isSpelling (op : Opcode) (t : Text) (form : Form) : Bool :=
  (if form = .folded then
    t = wideMark || (wideVariants.lookup t).isSome || (shortForm? t).isSome
  else
    IsToken t && standsForItself t
      && (form = .tableSwitch || form = .lookupSwitch
        || !switchMnemonics.contains t))
    && (!endsLikeAccess t || op.isArrayAccess || accessesLocal form)

theorem isSpelling_table :
    ∀ entry ∈ table.zipIdx,
      isSpelling ⟨entry.2⟩ (text entry.1.1) entry.1.2 = true := by
  simp only [text_eq_toByteArray]
  decide +kernel

theorem isSpelling_of_row? {op : Opcode} {mnemonic : String} {form : Form}
    (h : op.row? = some (mnemonic, form)) :
    isSpelling op (text mnemonic) form = true := by
  obtain ⟨i, rfl, hentry⟩ := exists_entry_of_row? h
  exact isSpelling_table _ hentry

/-! ## Reading mnemonics -/

/-- How an opcode that is not folded is spelled. -/
structure Spelled (op : Opcode) (form : Form) : Prop where
  token : IsToken op.name
  label : labelName? op.name = none
  directive : op.name.head? ≠ some (byte '.')
  mark : op.name ≠ wideMark
  short : shortForm? op.name = none
  wide : wideVariants.lookup op.name = none
  cases : form = .tableSwitch ∨ form = .lookupSwitch ∨
    switchMnemonics.contains op.name = false
  decoded : decodedOpcode? op.name = some op

theorem spelled_of_form? {op : Opcode} {form : Form} (h : op.form? = some form)
    (hfolded : form ≠ .folded) : Spelled op form := by
  obtain ⟨mnemonic, hrow, hname⟩ := exists_row_of_form? h
  have hspelling := isSpelling_of_row? hrow
  rw [isSpelling, if_neg hfolded, ← hname] at hspelling
  simp only [standsForItself, Bool.and_eq_true, decide_eq_true_eq,
    Bool.or_eq_true, Bool.not_eq_true'] at hspelling
  obtain ⟨⟨⟨htoken, ⟨⟨⟨hlabel, hdirective⟩, hmark⟩, hshort⟩, hwide⟩,
    hcases⟩, -⟩ := hspelling
  have hof : ofMnemonic? op.name = some op := by
    rw [ofMnemonic?_eq_some_iff, mnemonic?_eq_map, hrow, hname]
    rfl
  refine ⟨htoken, hlabel, hdirective, hmark, hshort, hwide, or_assoc.mp hcases,
    ?_⟩
  rw [decodedOpcode?, hwide]
  exact (if_neg hmark).trans hof

/-- A mnemonic that is no short form is decoded as an opcode that is not
folded. -/
theorem exists_form_of_decodedOpcode? {t : Text} {op : Opcode}
    (hshort : shortForm? t = none) (h : decodedOpcode? t = some op) :
    ∃ form, op.form? = some form ∧ form ≠ .folded := by
  rw [decodedOpcode?] at h
  cases hwide : wideVariants.lookup t with
  | some op' =>
      obtain rfl : op' = op := by simpa [hwide] using h
      have hvariants : ∀ entry ∈ wideVariants,
          ∃ form ∈ entry.2.form?, form ≠ .folded := by
        decide
      obtain ⟨before, after, hentries, -⟩ := List.lookup_eq_some_iff.mp hwide
      obtain ⟨form, hform, hfolded⟩ := hvariants (t, op') (by simp [hentries])
      exact ⟨form, hform, hfolded⟩
  | none =>
      simp only [hwide] at h
      split_ifs at h with hmark
      rw [ofMnemonic?_eq_some_iff, mnemonic?_eq_map,
        Option.map_eq_some_iff] at h
      obtain ⟨⟨mnemonic, form⟩, hrow, rfl⟩ := h
      refine ⟨form, by rw [form?, hrow]; rfl, ?_⟩
      intro hfolded
      have hspelling := isSpelling_of_row? hrow
      simp [isSpelling, hfolded, hmark, hwide, hshort] at hspelling

end Opcode

namespace Assembly

theorem shortForm?_eq_some_iff {t base : Text} {index : Int64} :
    shortForm? t = some (base, index) ↔
      ∃ digit, t = base ++ [byte '_', digit] ∧ byte '_' ∉ base ∧
        byte '0' ≤ digit ∧ digit ≤ byte '3' ∧
        Opcode.endsLikeAccess base = true ∧
        index = Int64.ofNat (digit.toNat - 48) := by
  rw [shortForm?]
  constructor
  · intro h
    split at h
    · rename_i base' digit hcut
      split_ifs at h with hcond
      cases h
      obtain ⟨rfl, hbase⟩ := Text.cut_eq_some_iff.mp hcut
      simp only [Bool.and_eq_true, decide_eq_true_eq] at hcond
      exact ⟨digit, rfl, hbase, hcond.1.1, hcond.1.2, hcond.2, rfl⟩
    · cases h
  · rintro ⟨digit, rfl, hbase, hlow, hhigh, hends, rfl⟩
    have hcut : Text.cut (byte '_') (base ++ [byte '_', digit]) =
        some (base, [digit]) :=
      Text.cut_eq_some_iff.mpr ⟨rfl, hbase⟩
    rw [hcut]
    refine if_pos ?_
    simp only [Bool.and_eq_true, decide_eq_true_eq]
    exact ⟨⟨hlow, hhigh⟩, hends⟩

end Assembly

namespace Opcode

open Assembly

/-- A mnemonic that ends like a load or store is one of a local variable, or of
an array element. -/
theorem form?_of_endsLikeAccess {t : Text} {op : Opcode}
    (h : ofMnemonic? t = some op) (hends : endsLikeAccess t = true) :
    (∃ form, op.form? = some form ∧ accessesLocal form = true) ∨
      op.isArrayAccess = true := by
  rw [ofMnemonic?_eq_some_iff, mnemonic?_eq_map, Option.map_eq_some_iff] at h
  obtain ⟨⟨mnemonic, form⟩, hrow, rfl⟩ := h
  have hform : op.form? = some form := by rw [form?, hrow]; rfl
  have hspelling := isSpelling_of_row? hrow
  rw [isSpelling, Bool.and_eq_true, hends, Bool.or_eq_true] at hspelling
  rcases hspelling.2 with haccess | hlocal
  · exact .inr (by simpa using haccess)
  · exact .inl ⟨form, hform, hlocal⟩

end Opcode

/-! ## Opcodes and operands -/

/-- Whether the instructions of a form have operands such as an instruction
has. -/
def Form.takes : Form → Instruction → Bool
  | .plain _, .plain _ => true
  | .pushInt, .int _ _ => true
  | .newArray, .int _ _ => true
  | .load _, .var _ _ => true
  | .store _, .var _ _ => true
  | .ret, .var _ _ => true
  | .increment, .increment _ _ => true
  | .typed _, .typed _ _ => true
  | .field _, .field _ _ _ _ => true
  | .invoke _, .method _ _ _ _ _ => true
  | .dynamic, .dynamic _ _ => true
  | .jump _, .jump _ _ => true
  | .constant, .constant _ => true
  | .tableSwitch, .tableSwitch _ _ _ _ => true
  | .lookupSwitch, .lookupSwitch _ _ _ => true
  | .multiArray, .multiArray _ _ => true
  | _, _ => false

/-- Whether the operands of an instruction go with its opcode. -/
def Instruction.fits (insn : Instruction) : Bool :=
  insn.opcode.form?.any fun form => form.takes insn

theorem Instruction.fits_iff {insn : Instruction} :
    insn.fits = true ↔
      ∃ form, insn.opcode.form? = some form ∧ form.takes insn = true := by
  rw [fits]
  cases insn.opcode.form? <;> simp

end Nullness
