import Nullness.Proofs.Numerals
import Nullness.Proofs.Reading
import Mathlib.Tactic.IntervalCases

/-!
# Instructions are read back from their lines

The lines that an instruction is printed as are read as that instruction again.
Each form of an instruction has an operand syntax of its own, and for each of
them what is printed is undone by what is read.

Targets are printed as labels.  The labels of a whole method are fixed in
advance, because a line may use a label that comes later.
-/

namespace Nullness

/-- Whether a position is that of an instruction, in a method with a number of
instructions. -/
def Inside (length : Nat) (pos : Int64) : Prop :=
  0 ≤ pos.toInt ∧ pos.toInt < length

instance (length : Nat) (pos : Int64) : Decidable (Inside length pos) :=
  inferInstanceAs (Decidable (0 ≤ pos.toInt ∧ pos.toInt < length))

/-- An entry of the exception table of a method with a number of instructions,
whose positions are in the method. -/
structure Handler.Resolved (length : Nat) (h : Handler) : Prop where
  start : Inside length h.start
  /-- A range may end where the code does. -/
  stop : Inside (length + 1) h.stop
  target : Inside length h.target

instance (length : Nat) (h : Handler) : Decidable (h.Resolved length) :=
  decidable_of_iff
    (Inside length h.start ∧ Inside (length + 1) h.stop ∧
      Inside length h.target)
    ⟨fun ⟨start, stop, target⟩ => ⟨start, stop, target⟩,
      fun h => ⟨h.start, h.stop, h.target⟩⟩

namespace Instruction

/-- An instruction of a method with a number of instructions, whose targets are
in the method, and which has as many cases as a switch over single keys has
keys. -/
def Resolved (length : Nat) : Instruction → Prop
  | .jump _ target => Inside length target
  | .tableSwitch min max default targets =>
    min.toInt ≤ max.toInt ∧ ∀ target ∈ default :: targets, Inside length target
  | .lookupSwitch default keys targets =>
    keys.length = targets.length ∧
      ∀ target ∈ default :: targets, Inside length target
  | _ => True

instance (length : Nat) :
    (insn : Instruction) → Decidable (insn.Resolved length)
  | .jump _ target => inferInstanceAs (Decidable (Inside length target))
  -- The targets are tried, and not all numbers of 64 bits.
  | .tableSwitch min max default targets =>
    have := List.decidableBAll (Inside length) (default :: targets)
    inferInstanceAs (Decidable (min.toInt ≤ max.toInt ∧
      ∀ target ∈ default :: targets, Inside length target))
  | .lookupSwitch default keys targets =>
    have := List.decidableBAll (Inside length) (default :: targets)
    inferInstanceAs (Decidable (keys.length = targets.length ∧
      ∀ target ∈ default :: targets, Inside length target))
  | .plain _ | .int _ _ | .var _ _ | .increment _ _ | .typed _ _
  | .field _ _ _ _ | .method _ _ _ _ _ | .dynamic _ _ | .constant _
  | .multiArray _ _ => inferInstanceAs (Decidable True)

end Instruction

namespace Assembly

/-! ## Labels -/

theorem labelOf_injective {a b : Int64} (h : labelOf a = labelOf b) :
    a = b := by
  have htext : Text.ofInt a.toInt = Text.ofInt b.toInt := (List.cons.inj h).2
  have ha := Number.decimal?_ofInt (Number.word?_toInt a)
  rw [htext, Number.decimal?_ofInt (Number.word?_toInt b)] at ha
  exact (Option.some.inj ha).symm

/-- The labels of the positions below a number, the newest first. -/
def labelEntries : Nat → List (Text × Nat)
  | 0 => []
  | n + 1 => (labelOf (Int64.ofNat n), n) :: labelEntries n

theorem lookup_labelEntries {n : Nat} {pos : Int64} (hn : n ≤ 2 ^ 63) :
    (labelEntries n).lookup (labelOf pos) =
      if Inside n pos then some pos.toInt.toNat else none := by
  induction n with
  | zero =>
      rw [if_neg (fun h => by have := h.1; have := h.2; omega)]
      rfl
  | succ n ih =>
      have hnat : (Int64.ofNat n).toInt = n :=
        Int64.toInt_ofNat_of_lt (by omega)
      rw [labelEntries, List.lookup_cons]
      by_cases heq : pos = Int64.ofNat n
      · have hinside : Inside (n + 1) pos := by
          rw [heq, Inside, hnat]
          omega
        rw [if_pos hinside, heq, beq_self_eq_true, hnat]
        rfl
      · have hne : (labelOf pos == labelOf (Int64.ofNat n)) = false := by
          simpa using fun h => heq (labelOf_injective h)
        have hint : pos.toInt ≠ n :=
          fun h => heq (Int64.toInt.inj (h.trans hnat.symm))
        have hiff : Inside (n + 1) pos ↔ Inside n pos := by
          simp only [Inside]
          omega
        rw [hne, ih (by omega)]
        simp only [hiff]

/-- The labels of a printed method: one for every instruction, and one for the
end. -/
def printedLabels (length : Nat) : Labels := ⟨labelEntries (length + 1), length⟩

variable {length : Nat} {pos : Int64}

theorem target_printedLabels {allowEnd : Bool} (hlength : length < 2 ^ 63)
    (h : Inside length pos ∨ allowEnd = true ∧ Inside (length + 1) pos) :
    (printedLabels length).target allowEnd (labelOf pos) = .ok pos := by
  have hinside : Inside (length + 1) pos := by
    rcases h with h | h
    · exact ⟨h.1, by have := h.2; omega⟩
    · exact h.2
  have hlookup : (printedLabels length).positions.lookup (labelOf pos) =
      some pos.toInt.toNat := by
    rw [printedLabels, lookup_labelEntries (by omega), if_pos hinside]
  have hend : ¬ (pos.toInt.toNat = length ∧ ¬ allowEnd = true) := by
    rintro ⟨hend, hnot⟩
    rcases h with h | h
    · have := h.1
      have := h.2
      omega
    · exact hnot h.1
  have hpos : Int64.ofNat pos.toInt.toNat = pos := by
    have hcast : ((pos.toInt.toNat : Nat) : Int) = pos.toInt :=
      Int.toNat_of_nonneg hinside.1
    have := Int64.ofInt_toInt pos
    rw [← hcast] at this
    exact this
  rw [Labels.target, hlookup]
  exact (if_neg hend).trans (congrArg Except.ok hpos)

theorem instruction_printedLabels (hlength : length < 2 ^ 63)
    (h : Inside length pos) :
    (printedLabels length).instruction (labelOf pos) = .ok pos :=
  target_printedLabels hlength (Or.inl h)

/-! ## The fields of a printed instruction -/

theorem isTokenByte_of_mem_ofInt {i : Int} {b : UInt8} (h : b ∈ Text.ofInt i) :
    isTokenByte b = true := by
  have hall : (byte '-' :: Text.digits).all isTokenByte = true := by decide
  exact List.all_eq_true.mp hall b (Text.mem_of_mem_ofInt h)

theorem colon_notMem_ofInt (i : Int) : byte ':' ∉ Text.ofInt i := fun h =>
  absurd (Text.mem_of_mem_ofInt h) (by decide)

theorem isToken_ofInt (i : Int) : IsToken (Text.ofInt i) where
  ne_nil := Text.ofInt_ne_nil i
  bytes _ := isTokenByte_of_mem_ofInt
  head h := absurd (Text.mem_of_mem_ofInt (List.mem_of_head? h)) (by decide)

theorem isToken_labelOf (pos : Int64) : IsToken (labelOf pos) where
  ne_nil := List.cons_ne_nil _ _
  bytes :=
    List.forall_mem_cons.mpr ⟨by decide, fun _ => isTokenByte_of_mem_ofInt⟩
  head := by
    rw [labelOf, List.head?_cons]
    decide

theorem colon_notMem_labelOf (pos : Int64) : byte ':' ∉ labelOf pos := by
  rw [labelOf, List.mem_cons]
  rintro (h | h)
  · exact absurd h (by decide)
  · exact colon_notMem_ofInt _ h

theorem integer_integerText (mnemonic : Text) (n : Int64) :
    integer mnemonic (integerText n) = .ok n := by
  rw [integer, integerText, Number.decimal?_ofInt (Number.word?_toInt n)]

theorem elementName_spec {code : Int64} (hlow : 4 ≤ code.toInt)
    (hhigh : code.toInt ≤ 11) :
    IsToken (elementName code) ∧
      elementTypes.lookup (elementName code) = some code := by
  have hcode := Int64.ofInt_toInt code
  generalize code.toInt = i at hlow hhigh hcode
  subst hcode
  interval_cases i <;> decide

/-! ## The cases of switches -/

variable {target : Int64} {targets : List Int64}

theorem defaultTarget_defaultFields (hlength : length < 2 ^ 63)
    (h : Inside length target) (mnemonic : Text) :
    defaultTarget (printedLabels length) mnemonic (defaultFields target) =
      .ok target := by
  rw [defaultTarget, defaultFields,
    caseParts_pair (by decide) (colon_notMem_labelOf target)]
  exact (if_pos rfl).trans (instruction_printedLabels hlength h)

theorem tableTargets_labels (hlength : length < 2 ^ 63)
    (h : ∀ target ∈ targets, Inside length target) :
    tableTargets (printedLabels length) (targets.map fun target =>
      [labelOf target]) = .ok targets := by
  induction targets with
  | nil => rfl
  | cons target targets ih =>
      obtain ⟨htarget, htargets⟩ := List.forall_mem_cons.mp h
      rw [List.map_cons, tableTargets, Text.join,
        instruction_printedLabels hlength htarget, ih htargets]
      rfl

theorem lookupCase_label (hlength : length < 2 ^ 63) (h : Inside length target)
    (key : Int64) :
    lookupCase (printedLabels length) [integerText key, text ":",
      labelOf target] = .ok (key, target) := by
  rw [lookupCase, integerText,
    caseParts_pair (colon_notMem_ofInt _) (colon_notMem_labelOf target)]
  simp only [Number.decimal?_ofInt (Number.word?_toInt key)]
  rw [instruction_printedLabels hlength h]
  rfl

theorem lookupCases_labels {keys : List Int64} (hlength : length < 2 ^ 63)
    (h : ∀ target ∈ targets, Inside length target) :
    lookupCases (printedLabels length)
      (List.zipWith (fun key target =>
        [integerText key, text ":", labelOf target])
        keys targets) = .ok (keys.zip targets) := by
  induction targets generalizing keys with
  | nil => cases keys <;> rfl
  | cons target targets ih =>
      obtain ⟨htarget, htargets⟩ := List.forall_mem_cons.mp h
      cases keys with
      | nil => rfl
      | cons key keys =>
          rw [List.zipWith_cons_cons, lookupCases,
            lookupCase_label hlength htarget, ih htargets]
          rfl

theorem tableRange_integerText {min max : Int64} (h : min.toInt ≤ max.toInt) :
    tableRange [integerText min, integerText max] = .ok (min, max) := by
  simp only [tableRange, integerText,
    Number.decimal?_ofInt (Number.word?_toInt _)]
  exact if_neg (by omega)

theorem integerText_ne_bar (n : Int64) : integerText n ≠ bar := by
  intro h
  have hmem : byte '|' ∈ Text.ofInt n.toInt := by
    rw [← integerText, h]
    exact List.mem_cons_self
  exact absurd (Text.mem_of_mem_ofInt hmem) (by decide)

theorem isCase_labelOf (pos : Int64) (rest : List Text) :
    IsCase (labelOf pos :: rest) := by
  refine ⟨labelOf pos, rest, rfl, ?_⟩
  intro h
  have hhead : (labelOf pos).head? = some (byte 'd') := by
    have htake := congrArg List.head? h
    rw [labelOf, List.takeWhile_cons_of_pos (by decide)] at htake
    exact htake
  exact absurd hhead (by rw [labelOf, List.head?_cons]; decide)

theorem isCase_integerText (n : Int64) (rest : List Text) :
    IsCase (integerText n :: rest) := by
  refine ⟨integerText n, rest, rfl, ?_⟩
  intro h
  have hmem : byte 'd' ∈ (integerText n).takeWhile (· != byte ':') := by
    rw [h]
    exact List.mem_cons_self
  exact absurd (Text.mem_of_mem_ofInt (List.takeWhile_subset _ hmem))
    (by decide)

/-! ## Qualified names -/

theorem splitMember?_join {owner name : Text} (howner : owner ≠ [])
    (hname : name ≠ []) (hslash : byte '/' ∉ name) (hdot : byte '.' ∉ name) :
    splitMember? (owner ++ text "/" ++ name) = some (owner, name) := by
  have hcut : Text.cutLastAt (fun b => b == byte '/' || b == byte '.')
      (owner ++ text "/" ++ name) = some (owner, name) := by
    refine Text.cutLastAt_eq_some_iff.mpr ⟨byte '/', ?_, by decide, ?_⟩
    · rw [List.append_assoc]
      rfl
    · intro b hb
      have hne := ne_of_mem_of_not_mem hb hslash
      have hne' := ne_of_mem_of_not_mem hb hdot
      simp [hne, hne']
  rw [splitMember?, hcut]
  simp [howner, hname]

theorem splitDescriptor?_append {name desc : Text} (hname : byte '(' ∉ name)
    (hdesc : desc.head? = some (byte '(')) :
    splitDescriptor? (name ++ desc) = some (name, desc) := by
  obtain ⟨rest, rfl⟩ : ∃ rest, desc = byte '(' :: rest :=
    List.head?_eq_some_iff.mp hdesc
  rw [splitDescriptor?, Text.cut_eq_some_iff.mpr ⟨rfl, hname⟩]
  rfl

end Assembly

/-! ## Canonical instructions -/

namespace Instruction

open Assembly

/-- Whether the operands of an instruction have a spelling, apart from those
that have to do with control flow. -/
def Spellable : Instruction → Prop
  | .int op operand =>
    op.form? = some .newArray → 4 ≤ operand.toInt ∧ operand.toInt ≤ 11
  | .typed _ desc | .multiArray desc _ => IsToken desc
  | .field _ owner name desc =>
    IsToken owner ∧ IsToken name ∧ IsToken desc ∧
      byte '/' ∉ name ∧ byte '.' ∉ name
  | .method op owner name desc isInterface =>
    IsToken owner ∧ IsToken name ∧ IsToken desc ∧
      byte '/' ∉ name ∧ byte '.' ∉ name ∧
      byte '(' ∉ owner ∧ byte '(' ∉ name ∧ desc.head? = some (byte '(') ∧
      isInterface = decide (op = .invokeinterface)
  | .dynamic name desc => IsToken name ∧ IsToken desc
  | .constant kind => kind.code ≤ 5
  | _ => True

instance : (insn : Instruction) → Decidable insn.Spellable
  | .int op operand => inferInstanceAs (Decidable
      (op.form? = some .newArray → 4 ≤ operand.toInt ∧ operand.toInt ≤ 11))
  | .typed _ desc | .multiArray desc _ =>
    inferInstanceAs (Decidable (IsToken desc))
  | .field _ owner name desc => inferInstanceAs (Decidable
      (IsToken owner ∧ IsToken name ∧ IsToken desc ∧
        byte '/' ∉ name ∧ byte '.' ∉ name))
  | .method op owner name desc isInterface => inferInstanceAs (Decidable
      (IsToken owner ∧ IsToken name ∧ IsToken desc ∧
        byte '/' ∉ name ∧ byte '.' ∉ name ∧
        byte '(' ∉ owner ∧ byte '(' ∉ name ∧ desc.head? = some (byte '(') ∧
        isInterface = decide (op = .invokeinterface)))
  | .dynamic name desc =>
    inferInstanceAs (Decidable (IsToken name ∧ IsToken desc))
  | .constant kind => inferInstanceAs (Decidable (kind.code ≤ 5))
  | .plain _ | .var _ _ | .increment _ _ | .jump _ _ | .tableSwitch _ _ _ _
  | .lookupSwitch _ _ _ => inferInstanceAs (Decidable True)

/-- An instruction whose operands go with its opcode and have a spelling, in a
method with a number of instructions. -/
structure Canonical (length : Nat) (insn : Instruction) : Prop where
  fits : insn.fits = true
  resolved : insn.Resolved length
  spellable : insn.Spellable

instance (length : Nat) (insn : Instruction) :
    Decidable (insn.Canonical length) :=
  decidable_of_iff
    (insn.fits = true ∧ insn.Resolved length ∧ insn.Spellable)
    ⟨fun ⟨fits, resolved, spellable⟩ => ⟨fits, resolved, spellable⟩,
      fun h => ⟨h.fits, h.resolved, h.spellable⟩⟩

end Instruction

namespace Assembly

open Instruction

variable {length : Nat} {insn : Instruction}

/-- The two mnemonics of constants are mnemonics in their own right. -/
def isConstantMnemonic (head : Text) : Bool :=
  IsToken head && labelName? head = none && head.head? ≠ some (byte '.')
    && !switchMnemonics.contains head && head ≠ wideMark
    && shortForm? head = none && decodedOpcode? head = some .ldc

theorem isField_emptyString : IsField (text "\"\"") where
  ne_nil := by decide
  newline := by decide
  reads _ := rfl

/-- What a constant is printed as is read as a constant of that kind. -/
theorem constantFields_spec {kind : ConstantKind} (h : kind.code ≤ 5) :
    ∃ head operand, constantFields kind = [head, operand] ∧
      isConstantMnemonic head = true ∧ IsField operand ∧
      constantKind operand (head = text "ldc2_w") = kind := by
  have hldc : isConstantMnemonic (text "ldc") = true := by decide
  have hldc2 : isConstantMnemonic (text "ldc2_w") = true := by decide
  have hzero : IsToken (text "0") := by decide
  have hfloat : IsToken (text "0.0") := by decide
  have hclass : IsToken (text "C") := by decide
  have hkind : kind = .int ∨ kind = .float ∨ kind = .long ∨ kind = .double ∨
      kind = .string ∨ kind = .class_ := by
    obtain ⟨code⟩ := kind
    have hcode : code = UInt8.ofNat code.toNat := by simp
    have hle : code.toNat ≤ 5 := h
    generalize code.toNat = c at hcode hle
    subst hcode
    interval_cases c <;> decide
  rcases hkind with rfl | rfl | rfl | rfl | rfl | rfl
  · exact ⟨_, _, rfl, hldc, hzero.isField, by decide⟩
  · exact ⟨_, _, rfl, hldc, hfloat.isField, by decide⟩
  · exact ⟨_, _, rfl, hldc2, hzero.isField, by decide⟩
  · exact ⟨_, _, rfl, hldc2, hfloat.isField, by decide⟩
  · exact ⟨_, _, rfl, hldc, isField_emptyString, by decide⟩
  · exact ⟨_, _, rfl, hldc, hclass.isField, by decide⟩

theorem assembles_constant {labels : Labels} {head operand : Text}
    (hhead : isConstantMnemonic head = true) :
    Assembles labels [[head, operand]]
      (.constant (constantKind operand (head = text "ldc2_w"))) := by
  simp only [isConstantMnemonic, Bool.and_eq_true, decide_eq_true_eq,
    Bool.not_eq_true'] at hhead
  obtain ⟨⟨⟨⟨⟨⟨-, hlabel⟩, hdirective⟩, hcases⟩, hmark⟩, hshort⟩, hdecoded⟩ :=
    hhead
  have hform := Opcode.form?_ldc
  refine assembles_single hlabel hdirective hcases hmark ?_
  intro number
  simp only [instruction, hshort, hdecoded]
  unfold withOperands
  simp only [hform]

theorem assembles_tableSwitch {min max default : Int64} {targets : List Int64}
    (hlength : length < 2 ^ 63) (hrange : min.toInt ≤ max.toInt)
    (hdefault : Inside length default)
    (htargets : ∀ target ∈ targets, Inside length target) :
    Assembles (printedLabels length)
      (instructionLines (.tableSwitch min max default targets))
      (.tableSwitch min max default targets) := by
  have hform := Opcode.form?_tableswitch
  change Assembles _
    ((Opcode.tableswitch.name :: [integerText min, integerText max])
      :: targets.map (fun target => [labelOf target])
      ++ [defaultFields default]) _
  refine assembles_switch hform (by simp) (by decide) ?_ ?_ ?_
  · intro group hgroup
    obtain ⟨target, -, rfl⟩ := List.mem_map.mp hgroup
    exact isCase_labelOf target []
  · simp [(integerText_ne_bar _).symm, (labelOf_ne_bar _).symm]
  · intro args hsplit
    unfold withOperands
    simp only [hform, switch_eq hsplit,
      defaultTarget_defaultFields hlength hdefault,
      tableRange_integerText hrange, tableTargets_labels hlength htargets]
    rfl

theorem assembles_lookupSwitch {default : Int64} {keys targets : List Int64}
    (hlength : length < 2 ^ 63) (hkeys : keys.length = targets.length)
    (hdefault : Inside length default)
    (htargets : ∀ target ∈ targets, Inside length target) :
    Assembles (printedLabels length)
      (instructionLines (.lookupSwitch default keys targets))
      (.lookupSwitch default keys targets) := by
  have hform := Opcode.form?_lookupswitch
  have hgroups : ∀ group ∈ List.zipWith
        (fun key target => [integerText key, text ":", labelOf target])
        keys targets,
      ∃ key target, group = [integerText key, text ":", labelOf target] := by
    intro group hgroup
    rw [← List.map_uncurry_zip_eq_zipWith] at hgroup
    obtain ⟨⟨key, target⟩, -, rfl⟩ := List.mem_map.mp hgroup
    exact ⟨key, target, rfl⟩
  change Assembles _ ((Opcode.lookupswitch.name :: [])
    :: List.zipWith
      (fun key target => [integerText key, text ":", labelOf target])
      keys targets
    ++ [defaultFields default]) _
  refine assembles_switch hform (by simp) (by decide) ?_ ?_ ?_
  · intro group hgroup
    obtain ⟨key, target, rfl⟩ := hgroups group hgroup
    exact isCase_integerText key _
  · rw [List.forall_mem_cons]
    refine ⟨List.not_mem_nil, ?_⟩
    intro group hgroup
    obtain ⟨key, target, rfl⟩ := hgroups group hgroup
    have hcolon : text ":" ≠ bar := by decide
    simp [(integerText_ne_bar _).symm, (labelOf_ne_bar _).symm, hcolon.symm]
  · intro args hsplit
    unfold withOperands
    simp only [hform, switch_eq hsplit,
      defaultTarget_defaultFields hlength hdefault,
      lookupCases_labels hlength htargets]
    change Except.ok (lookupSwitch default ((keys.zip targets).map (·.1))
      ((keys.zip targets).map (·.2))) = _
    rw [List.map_fst_zip (by omega), List.map_snd_zip (by omega)]

/-- The lines of a canonical instruction are read back as that instruction. -/
theorem assembles_instructionLines (hlength : length < 2 ^ 63)
    (h : insn.Canonical length) :
    Assembles (printedLabels length) (instructionLines insn) insn := by
  obtain ⟨form, hform, htakes⟩ := fits_iff.mp h.fits
  have hresolved := h.resolved
  have hspellable := h.spellable
  cases insn with
  | plain op =>
      change Assembles _ [[op.name]] _
      cases form with
      | plain effect =>
          refine assembles_of_withOperands hform (by simp) ?_
          unfold withOperands
          simp only [show op.form? = _ from hform]
          rfl
      | _ => cases htakes
  | int op operand =>
      change op.form? = some form at hform
      cases form with
      | pushInt =>
          have hfields : instructionLines (.int op operand) =
              [[op.name, integerText operand]] := by
            simp [instructionLines, hform, opcode]
          rw [hfields]
          refine assembles_of_withOperands hform (by simp) ?_
          unfold withOperands
          simp only [hform, integer_integerText]
          rfl
      | newArray =>
          obtain ⟨hlow, hhigh⟩ := hspellable hform
          have hfields : instructionLines (.int op operand) =
              [[op.name, elementName operand]] := by
            simp [instructionLines, hform, opcode]
          rw [hfields]
          refine assembles_of_withOperands hform (by simp) ?_
          unfold withOperands
          simp only [hform, (elementName_spec hlow hhigh).2]
      | _ => cases htakes
  | var op index =>
      change Assembles _ [[op.name, integerText index]] _
      cases form with
      | load size | store size | ret =>
          refine assembles_of_withOperands hform (by simp) ?_
          unfold withOperands
          simp only [show op.form? = _ from hform, integer_integerText]
          rfl
      | _ => cases htakes
  | increment index amount =>
      change Assembles _
        [[Opcode.iinc.name, integerText index, integerText amount]] _
      have hform := Opcode.form?_iinc
      refine assembles_of_withOperands hform (by simp) ?_
      unfold withOperands
      simp only [hform, integer_integerText]
      rfl
  | typed op desc =>
      change Assembles _ [[op.name, desc]] _
      cases form with
      | typed effect =>
          refine assembles_of_withOperands hform (by simp) ?_
          unfold withOperands
          simp only [show op.form? = _ from hform]
      | _ => cases htakes
  | field op owner name desc =>
      change Assembles _ [[op.name, owner ++ text "/" ++ name, desc]] _
      obtain ⟨howner, hname, -, hslash, hdot⟩ := hspellable
      cases form with
      | field access =>
          refine assembles_of_withOperands hform (by simp) ?_
          unfold withOperands
          simp only [show op.form? = _ from hform,
            splitMember?_join howner.ne_nil hname.ne_nil hslash hdot]
      | _ => cases htakes
  | method op owner name desc isInterface =>
      change Assembles _ [[op.name, owner ++ text "/" ++ name ++ desc]] _
      obtain ⟨howner, hname, -, hslash, hdot, hparen, hparen', hdesc, rfl⟩ :=
        hspellable
      have hqualified : byte '(' ∉ owner ++ text "/" ++ name := by
        simp only [List.mem_append, not_or]
        exact ⟨⟨hparen, by decide⟩, hparen'⟩
      cases form with
      | invoke receiver =>
          refine assembles_of_withOperands hform (by simp) ?_
          unfold withOperands
          simp only [show op.form? = _ from hform,
            splitDescriptor?_append hqualified hdesc,
            splitMember?_join howner.ne_nil hname.ne_nil hslash hdot]
      | _ => cases htakes
  | dynamic name desc =>
      change Assembles _ [[Opcode.invokedynamic.name, name, desc]] _
      have hform := Opcode.form?_invokedynamic
      refine assembles_of_withOperands hform (by simp) ?_
      unfold withOperands
      simp only [hform]
  | jump op target =>
      change Assembles _ [[op.name, labelOf target]] _
      cases form with
      | jump effect =>
          refine assembles_of_withOperands hform (by simp) ?_
          unfold withOperands
          simp only [show op.form? = _ from hform,
            instruction_printedLabels hlength hresolved]
          rfl
      | _ => cases htakes
  | constant kind =>
      obtain ⟨head, operand, hfields, hhead, -, hkind⟩ :=
        constantFields_spec hspellable
      change Assembles _ [constantFields kind] _
      rw [hfields, ← hkind]
      exact assembles_constant hhead
  | tableSwitch min max default targets =>
      obtain ⟨hrange, htargets⟩ := hresolved
      obtain ⟨hdefault, htargets⟩ := List.forall_mem_cons.mp htargets
      exact assembles_tableSwitch hlength hrange hdefault htargets
  | lookupSwitch default keys targets =>
      obtain ⟨hkeys, htargets⟩ := hresolved
      obtain ⟨hdefault, htargets⟩ := List.forall_mem_cons.mp htargets
      exact assembles_lookupSwitch hlength hkeys hdefault htargets
  | multiArray desc dims =>
      change Assembles _
        [[Opcode.multianewarray.name, desc, integerText dims]] _
      have hform := Opcode.form?_multianewarray
      refine assembles_of_withOperands hform (by simp) ?_
      unfold withOperands
      simp only [hform, integer_integerText]
      rfl

/-! ## The lines of an instruction hold fields -/

theorem isField_integerText (n : Int64) : IsField (integerText n) :=
  (isToken_ofInt n.toInt).isField

theorem isField_labelOf (pos : Int64) : IsField (labelOf pos) :=
  (isToken_labelOf pos).isField

theorem isField_name (h : insn.fits = true) : IsField insn.opcode.name := by
  obtain ⟨form, hform, htakes⟩ := fits_iff.mp h
  have hfolded : form ≠ .folded := by
    rintro rfl
    cases insn <;> cases htakes
  exact (Opcode.spelled_of_form? hform hfolded).token.isField

theorem isField_defaultFields (target : Int64) :
    ∀ t ∈ defaultFields target, IsField t := by
  have hdefault : IsToken (text "default") := by decide
  have hcolon : IsToken (text ":") := by decide
  simp [defaultFields, hdefault.isField, hcolon.isField, isField_labelOf]

theorem isField_constantFields {kind : ConstantKind} (h : kind.code ≤ 5) :
    ∀ t ∈ constantFields kind, IsField t := by
  obtain ⟨head, operand, hfields, hhead, hoperand, -⟩ := constantFields_spec h
  simp only [isConstantMnemonic, Bool.and_eq_true, decide_eq_true_eq] at hhead
  have htoken : IsToken head := hhead.1.1.1.1.1.1
  simp [hfields, htoken.isField, hoperand]

/-- Everything that a canonical instruction is printed as is read as one
field. -/
theorem isField_instructionLines (h : insn.Canonical length) :
    ∀ line ∈ instructionLines insn, ∀ t ∈ line, IsField t := by
  have hname := isField_name h.fits
  have hspellable := h.spellable
  cases insn with
  | plain op => simpa [instructionLines] using hname
  | int op operand =>
      have hoperand : IsField
          (if op.form? = some .newArray then elementName operand
            else integerText operand) := by
        split_ifs with harray
        · obtain ⟨hlow, hhigh⟩ := hspellable harray
          exact (elementName_spec hlow hhigh).1.isField
        · exact isField_integerText operand
      simpa [instructionLines] using ⟨hname, hoperand⟩
  | var op index =>
      simpa [instructionLines] using ⟨hname, isField_integerText index⟩
  | increment index amount =>
      simpa [instructionLines] using
        ⟨hname, isField_integerText index, isField_integerText amount⟩
  | typed op desc => simpa [instructionLines] using ⟨hname, hspellable.isField⟩
  | field op owner name desc =>
      obtain ⟨howner, hmember, hdesc, -⟩ := hspellable
      have hslash : IsToken (text "/") := by decide
      have hqualified : IsToken (owner ++ text "/" ++ name) :=
        (howner.append hslash.bytes).append hmember.bytes
      simpa [instructionLines, -List.append_assoc] using
        ⟨hname, hqualified.isField, hdesc.isField⟩
  | method op owner name desc isInterface =>
      obtain ⟨howner, hmember, hdesc, -⟩ := hspellable
      have hslash : IsToken (text "/") := by decide
      have hqualified : IsToken (owner ++ text "/" ++ name ++ desc) :=
        ((howner.append hslash.bytes).append hmember.bytes).append hdesc.bytes
      simpa [instructionLines,
        -List.append_assoc] using ⟨hname, hqualified.isField⟩
  | dynamic name desc =>
      obtain ⟨hmember, hdesc⟩ := hspellable
      simpa [instructionLines] using ⟨hname, hmember.isField, hdesc.isField⟩
  | jump op target =>
      simpa [instructionLines] using ⟨hname, isField_labelOf target⟩
  | constant kind =>
      simpa [instructionLines] using isField_constantFields hspellable
  | tableSwitch min max default targets =>
      intro line hline
      simp only [instructionLines, List.cons_append, List.mem_cons,
        List.mem_append, List.mem_map, List.not_mem_nil, or_false] at hline
      rcases hline with rfl | ⟨target, -, rfl⟩ | rfl
      · simpa using ⟨hname, isField_integerText min, isField_integerText max⟩
      · simpa using isField_labelOf target
      · exact isField_defaultFields default
  | lookupSwitch default keys targets =>
      have hcolon : IsToken (text ":") := by decide
      intro line hline
      simp only [instructionLines, List.cons_append, List.mem_cons,
        List.mem_append, ← List.map_uncurry_zip_eq_zipWith, List.mem_map,
        List.not_mem_nil, or_false] at hline
      rcases hline with rfl | ⟨⟨key, target⟩, -, rfl⟩ | rfl
      · simpa using hname
      · simpa using ⟨isField_integerText key, hcolon.isField,
          isField_labelOf target⟩
      · exact isField_defaultFields default
  | multiArray desc dims =>
      simpa [instructionLines]
        using ⟨hname, hspellable.isField, isField_integerText dims⟩

end Assembly
end Nullness
