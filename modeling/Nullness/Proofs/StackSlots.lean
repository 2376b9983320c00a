import Nullness.Proofs.Step

/-!
# Stack manipulation, slot by slot

The machine defines the instructions that rearrange the operand stack on single
slots:  each copies or drops the topmost slots by a fixed pattern, as long as
the pattern does not tear a value of two slots apart.  The transfer function
works on whole entries instead, and takes one or two entries for a block of two
slots, depending on their sizes.

Here the two descriptions are shown to agree.  A shuffle takes a block from the
stack, perhaps a second one from below it, and leaves copies of them.  A stack
can be divided at a depth exactly if it is that deep and no entry lies across
that depth, so the blocks are there exactly if the boundaries of the pattern
tear no entry apart; and what a shuffle leaves of two blocks depends on the
blocks only, not on the entries in them.
-/

namespace Nullness

/-! ## Slots and patterns -/

/-- One of the slots that a stack entry takes. -/
structure Slot where
  entry : Value
  /-- Which of the slots of the entry this is, the deepest being the first. -/
  part : Nat
  deriving DecidableEq, Repr

/-- The slots of an entry, the top first. -/
def Value.slots (v : Value) : List Slot :=
  (List.range v.size.toNat).reverse.map (Slot.mk v)

/-- The slots of a stack, the top first. -/
def slotsOf (stack : List Value) : List Slot := stack.flatMap Value.slots

/-- A depth, in slots, at which an entry of a stack is torn apart. -/
def Cuts (stack : List Value) (depth : Nat) : Prop :=
  ∃ above v below, stack = above ++ v :: below ∧ slotCount above < depth ∧
    depth < slotCount above + v.size.toNat

/-- A rearrangement of the top slots of a stack.  The slots are numbered from
the top, which has number one. -/
structure SlotPattern where
  /-- The number of slots that are rearranged. -/
  depth : Nat
  /-- The slots that take their place, the deepest first. -/
  leaves : List Nat
  /-- The depths at which the rearranged slots are divided into blocks. -/
  boundaries : List Nat
  deriving DecidableEq, Repr

/-- Rearranges the top slots of a stack; the deeper ones stay as they are. -/
def SlotPattern.apply (p : SlotPattern) (slots : List Slot) : List Slot :=
  p.leaves.reverse.filterMap (fun number => slots[number - 1]?) ++
    slots.drop p.depth

/-- The instructions that rearrange the stack. -/
inductive StackOp where
  | pop | pop2 | swap | dup | dupX1 | dupX2 | dup2 | dup2X1 | dup2X2
  deriving DecidableEq, Repr

namespace StackOp

/-- The opcode of an instruction that rearranges the stack. -/
def opcode : StackOp → Opcode
  | pop => ⟨87⟩
  | pop2 => ⟨88⟩
  | dup => ⟨89⟩
  | dupX1 => ⟨90⟩
  | dupX2 => ⟨91⟩
  | dup2 => ⟨92⟩
  | dup2X1 => ⟨93⟩
  | dup2X2 => ⟨94⟩
  | swap => ⟨95⟩

/-- How the machine defines the instruction. -/
def pattern : StackOp → SlotPattern
  | pop => ⟨1, [], [1]⟩
  | pop2 => ⟨2, [], [2]⟩
  | swap => ⟨2, [1, 2], [1, 2]⟩
  | dup => ⟨1, [1, 1], [1]⟩
  | dupX1 => ⟨2, [1, 2, 1], [1, 2]⟩
  | dupX2 => ⟨3, [1, 3, 2, 1], [1, 3]⟩
  | dup2 => ⟨2, [2, 1, 2, 1], [2]⟩
  | dup2X1 => ⟨3, [2, 1, 3, 2, 1], [2, 3]⟩
  | dup2X2 => ⟨4, [2, 1, 4, 3, 2, 1], [2, 4]⟩

/-- How the transfer function carries the instruction out. -/
def shuffle : StackOp → Shuffle
  | pop => .drop .one
  | pop2 => .drop .two
  | swap => .swap
  | dup => .copy .one
  | dupX1 => .copyUnder .one .one
  | dupX2 => .copyUnder .one .two
  | dup2 => .copy .two
  | dup2X1 => .copyUnder .two .one
  | dup2X2 => .copyUnder .two .two

theorem effect_eq (op : StackOp) :
    Transfer.effect (.plain op.opcode) = .ok (.shuffle op.shuffle) := by
  cases op <;> rfl

end StackOp

@[simp] theorem slotsOf_append (vs ws : List Value) :
    slotsOf (vs ++ ws) = slotsOf vs ++ slotsOf ws :=
  List.flatMap_append

@[simp] theorem length_slotsOf (stack : List Value) :
    (slotsOf stack).length = slotCount stack := by
  induction stack with
  | nil => rfl
  | cons v stack ih =>
      rw [← List.singleton_append, slotsOf_append, List.length_append, ih,
        slotCount_append]
      simp [slotsOf, Value.slots]

/-! ## Dividing a stack -/

/-- An entry that is torn apart stays so below other entries. -/
theorem Cuts.append {stack : List Value} {depth : Nat} (h : Cuts stack depth)
    (front : List Value) : Cuts (front ++ stack) (slotCount front + depth) := by
  obtain ⟨above, v, below, rfl, hlow, hhigh⟩ := h
  refine ⟨front ++ above, v, below, (List.append_assoc _ _ _).symm, ?_, ?_⟩
  · rw [slotCount_append]
    omega
  · rw [slotCount_append]
    omega

/-- A stack can be divided at a depth exactly if it is that deep and no entry
lies across the depth. -/
theorem exists_append_iff_not_cuts {stack : List Value} {depth : Nat} :
    (∃ above below, stack = above ++ below ∧ slotCount above = depth) ↔
      depth ≤ slotCount stack ∧ ¬Cuts stack depth := by
  constructor
  · rintro ⟨above, below, rfl, rfl⟩
    refine ⟨by simp, ?_⟩
    rintro ⟨above', v, below', heq, hlow, hhigh⟩
    rcases List.append_eq_append_iff.mp heq with ⟨more, rfl, -⟩ |
      ⟨more, rfl, hmore⟩
    · rw [slotCount_append] at hlow
      omega
    · cases more with
      | nil => simp at hlow
      | cons w more =>
          cases hmore
          simp only [slotCount_append, slotCount_cons] at hhigh
          omega
  · induction stack generalizing depth with
    | nil =>
        rintro ⟨hle, -⟩
        exact ⟨[], [], rfl, (Nat.le_zero.mp hle).symm⟩
    | cons v stack ih =>
        rintro ⟨hle, hcuts⟩
        rw [slotCount_cons] at hle
        by_cases hzero : depth = 0
        · exact ⟨[], v :: stack, rfl, hzero.symm⟩
        by_cases hdeep : v.size.toNat ≤ depth
        · -- The first entry is above the depth, and the rest is divided below
          -- it.
          obtain ⟨deeper, rfl⟩ := Nat.exists_eq_add_of_le hdeep
          have hrest : ¬Cuts stack deeper := by
            intro h
            exact hcuts (by simpa using h.append [v])
          obtain ⟨above, below, rfl, rfl⟩ := ih ⟨by omega, hrest⟩
          exact ⟨v :: above, below, rfl, slotCount_cons v above⟩
        · refine absurd ⟨[], v, stack, rfl, ?_, ?_⟩ hcuts
          · rw [slotCount_nil]
            omega
          · rw [slotCount_nil]
            omega

/-- Two blocks are on top of a stack exactly if it can be divided below each of
them. -/
theorem exists_blocks_iff_not_cuts {stack : List Value} {top below : Nat} :
    (∃ a b rest, stack = a ++ b ++ rest ∧ slotCount a = top ∧
      slotCount b = below) ↔
      top + below ≤ slotCount stack ∧ ¬Cuts stack top ∧
      ¬Cuts stack (top + below) := by
  constructor
  · rintro ⟨a, b, rest, rfl, rfl, rfl⟩
    have hfirst := exists_append_iff_not_cuts.mp
      ⟨a, b ++ rest, List.append_assoc a b rest, rfl⟩
    have hboth :=
      exists_append_iff_not_cuts.mp ⟨a ++ b, rest, rfl, slotCount_append a b⟩
    exact ⟨hboth.1, hfirst.2, hboth.2⟩
  · rintro ⟨hle, htop, hboth⟩
    obtain ⟨a, under, rfl, rfl⟩ :=
      exists_append_iff_not_cuts.mpr ⟨by omega, htop⟩
    rw [slotCount_append] at hle
    have hunder : ¬Cuts under below := fun h => hboth (h.append a)
    obtain ⟨b, rest, rfl, hb⟩ :=
      exists_append_iff_not_cuts.mpr ⟨by omega, hunder⟩
    exact ⟨a, b, rest, (List.append_assoc a b rest).symm, rfl, hb⟩

/-! ## Shuffles of blocks -/

/-- The number of slots of a block. -/
def Block.width : Block → Nat
  | .one => 1
  | .two => 2

namespace Shuffle

/-- The block that a shuffle takes first. -/
def top : Shuffle → Block
  | drop b | copy b | copyUnder b _ => b
  | swap => .one

/-- The number of slots that a shuffle takes from below that block. -/
def belowWidth : Shuffle → Nat
  | drop _ | copy _ => 0
  | copyUnder _ b => b.width
  | swap => 1

/-- What a shuffle leaves of the two blocks that it takes. -/
def leave {α : Type} (a b : List α) : Shuffle → List α
  | drop _ => []
  | copy _ => a ++ a
  | copyUnder _ _ => a ++ b ++ a
  | swap => b ++ a

theorem leave_subset {α : Type} (s : Shuffle) (a b : List α) :
    s.leave a b ⊆ a ++ b := by
  cases s <;> simp [leave]

theorem slotsOf_leave (s : Shuffle) (a b : List Value) :
    slotsOf (s.leave a b) = s.leave (slotsOf a) (slotsOf b) := by
  cases s with
  | drop => rfl
  | copy => simp [leave]
  | copyUnder => simp [leave]
  | swap => simp [leave]

end Shuffle

/-- Entries of one or two slots make a block exactly if they have as many
slots. -/
theorem Block.fits_iff_slotCount {b : Block} {vs : List Value}
    (hvs : ∀ v ∈ vs, v.Stackable) :
    b.Fits (vs.map (·.size)) ↔ slotCount vs = b.width := by
  have hsize : ∀ v ∈ vs, v.size.toNat = 1 ∧ v.size = 1 ∨ v.size.toNat = 2 ∧
      v.size = 2 := by
    intro v hv
    rcases hvs v hv with h | h
    · exact Or.inl ⟨by rw [h]; rfl, h⟩
    · exact Or.inr ⟨by rw [h]; rfl, h⟩
  rcases vs with _ | ⟨v, _ | ⟨w, _ | ⟨u, vs⟩⟩⟩
  · cases b <;> simp [Fits, width]
  · have hv := hsize v (by simp)
    cases b <;> simp [Fits, width] <;> grind
  · have hv := hsize v (by simp)
    have hw := hsize w (by simp)
    cases b <;> simp [Fits, width] <;> grind
  · have hv := hsize v (by simp)
    have hw := hsize w (by simp)
    have hu := hsize u (by simp)
    cases b <;> simp [Fits, width] <;> omega

theorem eq_nil_of_slotCount {vs : List Value} (hvs : ∀ v ∈ vs, v.Stackable)
    (h : slotCount vs = 0) : vs = [] := by
  cases vs with
  | nil => rfl
  | cons v vs =>
      rw [slotCount_cons] at h
      rcases hvs v List.mem_cons_self with hsize | hsize
      · simp [hsize] at h
      · simp [hsize] at h

namespace Shuffle

variable {s : Shuffle}

/-- A shuffle exchanges one or two blocks for what it leaves of them. -/
theorem exchange_iff {read : UInt8 → Value → Option Value}
    {locals taken given locals' : List Value}
    (htaken : ∀ v ∈ taken, v.Stackable) :
    Effect.Exchange read locals (.shuffle s) taken given locals' ↔
      locals' = locals ∧ ∃ a b, slotCount a = s.top.width ∧
        slotCount b = s.belowWidth ∧ taken = a ++ b ∧ given = s.leave a b := by
  constructor
  · intro hx
    cases hx with
    | drop hfits =>
        exact ⟨rfl, taken, [], (Block.fits_iff_slotCount htaken).mp hfits, rfl,
          by simp, rfl⟩
    | copy hfits =>
        exact ⟨rfl, taken, [], (Block.fits_iff_slotCount htaken).mp hfits, rfl,
          by simp, rfl⟩
    | @copyUnder top below a b ha hb =>
        rw [List.forall_mem_append] at htaken
        exact ⟨rfl, a, b, (Block.fits_iff_slotCount htaken.1).mp ha,
          (Block.fits_iff_slotCount htaken.2).mp hb, rfl, rfl⟩
    | @swap a b ha hb =>
        rw [List.forall_mem_append] at htaken
        exact ⟨rfl, a, b, (Block.fits_iff_slotCount htaken.1).mp ha,
          (Block.fits_iff_slotCount htaken.2).mp hb, rfl, rfl⟩
  · rintro ⟨rfl, a, b, ha, hb, rfl, rfl⟩
    rw [List.forall_mem_append] at htaken
    have hfits := (Block.fits_iff_slotCount htaken.1).mpr ha
    cases s with
    | drop top =>
        rw [eq_nil_of_slotCount htaken.2 hb, List.append_nil]
        exact .drop hfits
    | copy top =>
        rw [eq_nil_of_slotCount htaken.2 hb, List.append_nil]
        exact .copy hfits
    | copyUnder top below =>
        exact .copyUnder hfits ((Block.fits_iff_slotCount htaken.2).mpr hb)
    | swap => exact .swap hfits ((Block.fits_iff_slotCount htaken.2).mpr hb)

/-- A shuffle can be carried out exactly if its blocks are there and what it
leaves of them has room on the stack. -/
theorem step_eq_ok_iff {insn : Instruction} {f after : Frame}
    (hinsn : Transfer.effect insn = .ok (.shuffle s)) (hf : f.Counted)
    (hstack : ∀ v ∈ f.stack, v.Stackable) :
    Transfer.step f insn = .ok after ↔
      ∃ a b rest, f.stack = a ++ b ++ rest ∧ slotCount a = s.top.width ∧
        slotCount b = s.belowWidth ∧
        slotCount (s.leave a b ++ rest) ≤ f.maxStack ∧
        after = f.restack (s.leave a b ++ rest)
          (slotCount (s.leave a b ++ rest)) := by
  rw [Transfer.step_eq_ok_iff_exchange]
  constructor
  · rintro ⟨e, taken, given, rest, locals, heffect, hx, heq, -, hroom, hafter⟩
    rw [hinsn] at heffect
    cases heffect
    rw [heq, List.forall_mem_append] at hstack
    obtain ⟨rfl, a, b, ha, hb, rfl, rfl⟩ := (exchange_iff hstack.1).mp hx
    rw [hf.slots_exchange heq] at hafter
    exact ⟨a, b, rest, heq, ha, hb, (hf.room_iff heq f.locals).mp hroom, hafter⟩
  · rintro ⟨a, b, rest, heq, ha, hb, hroom, rfl⟩
    rw [heq, List.forall_mem_append] at hstack
    refine ⟨_, a ++ b, s.leave a b, rest, f.locals, hinsn, ?_, heq, ?_, ?_, ?_⟩
    · exact (exchange_iff hstack.1).mpr ⟨rfl, a, b, ha, hb, rfl, rfl⟩
    · exact fun v hv => hstack.1 v (s.leave_subset a b hv)
    · exact (hf.room_iff heq f.locals).mpr hroom
    · rw [hf.slots_exchange heq]
      rfl

end Shuffle

namespace StackOp

theorem depth_pattern (op : StackOp) :
    op.pattern.depth = op.shuffle.top.width + op.shuffle.belowWidth := by
  cases op <;> rfl

/-- The boundaries of a pattern are below the blocks that are taken. -/
theorem forall_boundaries_iff (op : StackOp) {P : Nat → Prop} :
    (∀ depth ∈ op.pattern.boundaries, P depth) ↔
      P op.shuffle.top.width ∧
      P (op.shuffle.top.width + op.shuffle.belowWidth) := by
  cases op <;>
    simp [pattern, shuffle, Shuffle.top, Shuffle.belowWidth, Block.width]

/-- On two blocks of the right lengths, the pattern does what the shuffle
does. -/
theorem apply_pattern (op : StackOp) {a b rest : List Slot}
    (ha : a.length = op.shuffle.top.width)
    (hb : b.length = op.shuffle.belowWidth) :
    op.pattern.apply (a ++ b ++ rest) = op.shuffle.leave a b ++ rest := by
  cases op with
  | pop | dup =>
      obtain ⟨x, rfl⟩ := List.length_eq_one_iff.mp ha
      obtain rfl := List.length_eq_zero_iff.mp hb
      rfl
  | pop2 | dup2 =>
      obtain ⟨x, y, rfl⟩ := List.length_eq_two.mp ha
      obtain rfl := List.length_eq_zero_iff.mp hb
      rfl
  | swap | dupX1 =>
      obtain ⟨x, rfl⟩ := List.length_eq_one_iff.mp ha
      obtain ⟨y, rfl⟩ := List.length_eq_one_iff.mp hb
      rfl
  | dupX2 =>
      obtain ⟨x, rfl⟩ := List.length_eq_one_iff.mp ha
      obtain ⟨y, z, rfl⟩ := List.length_eq_two.mp hb
      rfl
  | dup2X1 =>
      obtain ⟨x, y, rfl⟩ := List.length_eq_two.mp ha
      obtain ⟨z, rfl⟩ := List.length_eq_one_iff.mp hb
      rfl
  | dup2X2 =>
      obtain ⟨x, y, rfl⟩ := List.length_eq_two.mp ha
      obtain ⟨z, w, rfl⟩ := List.length_eq_two.mp hb
      rfl

theorem apply_pattern_slotsOf (op : StackOp) {a b rest : List Value}
    (ha : slotCount a = op.shuffle.top.width)
    (hb : slotCount b = op.shuffle.belowWidth) :
    op.pattern.apply (slotsOf (a ++ b ++ rest)) =
      slotsOf (op.shuffle.leave a b ++ rest) := by
  rw [slotsOf_append, slotsOf_append, slotsOf_append, Shuffle.slotsOf_leave]
  exact op.apply_pattern (by rw [length_slotsOf, ha])
    (by rw [length_slotsOf, hb])

/-- An instruction that rearranges the stack can be carried out exactly if the
slots that its pattern names are there, no boundary of the pattern tears an
entry apart, and the rearranged slots fit the bound.  It then rearranges the
slots by the pattern, and changes nothing else. -/
theorem step_rearranges_slots (op : StackOp) (f : Frame) (hf : f.Counted)
    (hsizes : ∀ v ∈ f.stack, v.size = 1 ∨ v.size = 2) :
    ((∃ after, Transfer.step f (.plain op.opcode) = .ok after) ↔
      op.pattern.depth ≤ (slotsOf f.stack).length ∧
        (∀ depth ∈ op.pattern.boundaries, ¬Cuts f.stack depth) ∧
        (op.pattern.apply (slotsOf f.stack)).length ≤ f.maxStack) ∧
    ∀ after, Transfer.step f (.plain op.opcode) = .ok after →
      slotsOf after.stack = op.pattern.apply (slotsOf f.stack) ∧
        (∀ v ∈ after.stack, v.size = 1 ∨ v.size = 2) ∧ after.Counted ∧
        after.locals = f.locals ∧ after.maxStack = f.maxStack := by
  have hstep : ∀ after, Transfer.step f (.plain op.opcode) = .ok after ↔ _ :=
    fun _ => Shuffle.step_eq_ok_iff op.effect_eq hf hsizes
  constructor
  · rw [op.depth_pattern, op.forall_boundaries_iff, length_slotsOf]
    constructor
    · rintro ⟨after, h⟩
      obtain ⟨a, b, rest, heq, ha, hb, hroom, -⟩ := (hstep after).mp h
      obtain ⟨hdepth, htop, hboth⟩ :=
        exists_blocks_iff_not_cuts.mp ⟨a, b, rest, heq, ha, hb⟩
      refine ⟨hdepth, ⟨htop, hboth⟩, ?_⟩
      rwa [heq, op.apply_pattern_slotsOf ha hb, length_slotsOf]
    · rintro ⟨hdepth, ⟨htop, hboth⟩, hroom⟩
      obtain ⟨a, b, rest, heq, ha, hb⟩ :=
        exists_blocks_iff_not_cuts.mpr ⟨hdepth, htop, hboth⟩
      rw [heq, op.apply_pattern_slotsOf ha hb, length_slotsOf] at hroom
      exact ⟨_, (hstep _).mpr ⟨a, b, rest, heq, ha, hb, hroom, rfl⟩⟩
  · intro after h
    obtain ⟨a, b, rest, heq, ha, hb, hroom, rfl⟩ := (hstep after).mp h
    refine ⟨?_, ?_, ⟨rfl, hroom⟩, rfl, rfl⟩
    · rw [heq, op.apply_pattern_slotsOf ha hb]
      rfl
    · rw [heq, List.forall_mem_append] at hsizes
      refine List.forall_mem_append.mpr ⟨?_, hsizes.2⟩
      exact fun v hv => hsizes.1 v (op.shuffle.leave_subset a b hv)

/-- A frame with two values of one slot above one of two slots. -/
def mixedFrame : Frame where
  locals := [.empty]
  stack := [.nullable, .null, .primitive 2, .nonNull]
  slots := 5
  maxStack := 7

/-- Two values of one slot are copied under one of two slots. -/
theorem dup2X2_rearranges_slots :
    mixedFrame.Counted ∧ (∀ v ∈ mixedFrame.stack, v.size = 1 ∨ v.size = 2) ∧
      (∃ after, Transfer.step mixedFrame (.plain dup2X2.opcode) = .ok after) ∧
      ∀ after, Transfer.step mixedFrame (.plain dup2X2.opcode) = .ok after →
        slotsOf after.stack =
          [⟨.nullable, 0⟩, ⟨.null, 0⟩, ⟨.primitive 2, 1⟩, ⟨.primitive 2, 0⟩,
            ⟨.nullable, 0⟩, ⟨.null, 0⟩, ⟨.nonNull, 0⟩] := by
  have hcounted : mixedFrame.Counted := ⟨rfl, by decide⟩
  have hsizes : ∀ v ∈ mixedFrame.stack, v.size = 1 ∨ v.size = 2 := by decide
  have hrearranges := step_rearranges_slots dup2X2 mixedFrame hcounted hsizes
  refine ⟨hcounted, hsizes, ⟨_, rfl⟩, fun after h => ?_⟩
  rw [(hrearranges.2 after h).1]
  decide

end StackOp
end Nullness
