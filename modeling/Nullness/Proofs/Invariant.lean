import Nullness.Proofs.Step

/-!
# What every step keeps

Instances of slot relations.  Families of frames below a frame give the
monotonicity of the transfer function, and empty families give invariants of
single frames: the contents that its slots have.
-/

namespace Nullness

namespace Value

theorem read_eq_some_iff {size : UInt8} {v w : Value} :
    v.read size = some w ↔
      w = v ∧ v.isEmpty = false ∧ v.size ≠ 0 ∧ v.size = size := by
  rw [read, isConflict]
  by_cases hempty : v.isEmpty
  · simp [hempty]
  · by_cases hzero : v.size = 0
    · simp [hzero]
    · by_cases hsize : v.size = size
      · simp [hempty, hsize, eq_comm, and_comm]
      · simp [hempty, hzero, hsize]

/-- A content below a readable one can be read in the relaxed way, and yields
itself or a value of which nothing is known. -/
theorem Below.relaxedRead {size : UInt8} {v w w' : Value} (h : v.Below w)
    (hread : w.read size = some w') :
    ∃ v', v.relaxedRead size = some v' ∧ v'.size = w'.size ∧ v'.Below w' ∧
      (v.nullability ≠ .unknown → v' = v) := by
  obtain ⟨rfl, hempty, hzero, rfl⟩ := read_eq_some_iff.mp hread
  by_cases hunset : v.isEmpty
  · refine ⟨⟨.unknown, w'.size⟩, by rw [Value.relaxedRead, if_pos hunset], rfl,
      Or.inr (Or.inr ⟨rfl, Nullability.le_iff.mpr (by simp)⟩), ?_⟩
    intro hknown
    simp [isEmpty, hknown] at hunset
  · have hsize : v.size = w'.size := by
      rcases h with h | rfl | ⟨h, -⟩
      · exact absurd h hzero
      · exact absurd (by decide) hunset
      · exact h
    refine ⟨v, ?_, hsize, h, fun _ => rfl⟩
    rw [Value.relaxedRead, if_neg hunset]
    refine read_eq_some_iff.mpr ⟨rfl, by simpa using hunset, ?_, hsize⟩
    rwa [hsize]

theorem Below.invalidate {v w : Value} (h : v.Below w) :
    v.invalidate.Below w.invalidate := by
  rw [Value.invalidate, Value.invalidate]
  by_cases hw : w.size = 2
  · rw [if_pos hw]
    exact below_conflict _
  · rw [if_neg hw]
    by_cases hv : v.size = 2
    · rw [if_pos hv]
      rcases h with h | rfl | ⟨h, -⟩
      · exact Or.inl h
      · exact absurd hv (by decide)
      · exact absurd (h ▸ hv) hw
    · rwa [if_neg hv]

theorem Regular.invalidate {v : Value} (h : v.Regular) :
    v.invalidate.Regular := by
  rw [Value.invalidate]
  split_ifs
  · exact regular_conflict
  · exact h

theorem Regular.known_of_read {size : UInt8} {v w : Value} (h : v.Regular)
    (hread : v.read size = some w) : w.Known := by
  obtain ⟨rfl, hempty, hzero, -⟩ := read_eq_some_iff.mp hread
  rcases h with rfl | rfl | h
  · exact absurd hempty (by decide)
  · exact absurd rfl hzero
  · exact h

end Value

/-! ## Monotonicity -/

/-- A family of contents that all lie below a content. -/
def belowRel (ι : Type) : SlotRel ι where
  entry w vs := ∀ k, (vs k).size = w.size ∧ (vs k).Below w
  content w vs := ∀ k, (vs k).Below w
  size_eq h k := (h k).1
  constant _ _ := ⟨rfl, Value.below_refl _⟩
  loaded := by
    intro size w w' vs h hread
    choose vs' hvs' hsize hbelow _ using fun k => (h k).relaxedRead hread
    exact ⟨vs', hvs', fun k => ⟨hsize k, hbelow k⟩⟩
  stored h k := (h k).2
  invalidated h k := (h k).invalidate
  unusable _ := Value.below_refl _

theorem belowRel_relates_iff {ι : Type} {f : Frame} {g : ι → Frame} :
    (belowRel ι).Relates f g ↔ ∀ k, (g k).Below f := by
  have hentry : ∀ {ws vss}, Lift (belowRel ι).entry ws vss ↔
      ∀ k, List.Forall₂ (fun v w => v.size = w.size ∧ v.Below w) (vss k) ws :=
    lift_forall_iff (S := fun v w => v.size = w.size ∧ v.Below w)
  constructor
  · intro h k
    exact ⟨lift_forall_iff.mp h.locals k, hentry.mp h.stack k⟩
  · intro h
    exact ⟨lift_forall_iff.mpr fun k => (h k).1,
      hentry.mpr fun k => (h k).2⟩

namespace Frame

variable {f f' g g' : Frame} {insn : Instruction}

/-- The transfer function is monotone where it succeeds, even if the lower frame
takes a relaxed step. -/
theorem Below.step (h : g.Below f) (hstep : Transfer.step f insn = .ok f')
    (hlower : Transfer.relaxedStep g insn = .ok g') : g'.Below f' := by
  have hrel : (belowRel Unit).Relates f (fun _ => g) :=
    belowRel_relates_iff.mpr fun _ => h
  obtain ⟨after, hafter, honly⟩ := hrel.step hstep
  rw [(honly ()).1 g' hlower]
  exact belowRel_relates_iff.mp hafter ()

/-- Where a frame can take a step, every frame below it that has as much room on
its stack can take a relaxed step. -/
theorem Below.exists_relaxedStep (h : g.Below f)
    (hstep : Transfer.step f insn = .ok f') (hslots : g.slots = f.slots)
    (hmax : g.maxStack = f.maxStack) :
    ∃ g', Transfer.relaxedStep g insn = .ok g' ∧ g'.Below f' := by
  have hrel : (belowRel Unit).Relates f (fun _ => g) :=
    belowRel_relates_iff.mpr fun _ => h
  obtain ⟨after, hafter, honly⟩ := hrel.step hstep
  exact ⟨after (), (honly ()).2 hslots hmax,
    belowRel_relates_iff.mp hafter ()⟩

end Frame

/-! ## Invariants of single frames -/

/-- Properties of stack entries and of local variables that every movement of
contents keeps. -/
structure SlotInvariant where
  entry : Value → Prop
  content : Value → Prop
  constant : ∀ {v : Value}, v.Produced → entry v
  loaded : ∀ {size v w}, content v → v.read size = some w → entry w
  stored : ∀ {v}, entry v → content v
  invalidated : ∀ {v}, content v → content v.invalidate
  unusable : content Value.conflict

namespace SlotInvariant

/-- A frame whose slots have the properties. -/
structure Holds (I : SlotInvariant) (f : Frame) : Prop where
  locals : ∀ v ∈ f.locals, I.content v
  stack : ∀ v ∈ f.stack, I.entry v

/-- An invariant relates a frame to no other frames. -/
def toRel (I : SlotInvariant) : SlotRel Empty where
  entry w _ := I.entry w
  content w _ := I.content w
  size_eq _ k := k.elim
  constant := I.constant
  loaded h hread := ⟨Empty.elim, fun k => k.elim, I.loaded h hread⟩
  stored := I.stored
  invalidated := I.invalidated
  unusable := I.unusable

theorem Holds.step {I : SlotInvariant} {f f' : Frame} {insn : Instruction}
    (h : I.Holds f) (hstep : Transfer.step f insn = .ok f') : I.Holds f' := by
  have hrel : I.toRel.Relates f (fun k => k.elim) :=
    ⟨lift_empty_iff.mpr h.locals, lift_empty_iff.mpr h.stack⟩
  obtain ⟨g', hafter, -⟩ := hrel.step hstep
  exact ⟨lift_empty_iff.mp hafter.locals, lift_empty_iff.mp hafter.stack⟩

theorem Holds.storeAt {I : SlotInvariant} {locals : List Value} {v : Value}
    (h : ∀ w ∈ locals, I.content w) (hv : I.entry v) (index : Nat) :
    ∀ w ∈ Frame.storeAt locals index v, I.content w := by
  have hrel : Lift I.toRel.content locals (fun k : Empty => k.elim) :=
    lift_empty_iff.mpr h
  have hentry : I.toRel.entry v Empty.elim := hv
  exact lift_empty_iff.mp (I.toRel.lift_storeAt hrel hentry index)

/-- Regular contents in every slot. -/
def regular : SlotInvariant where
  entry := Value.Regular
  content := Value.Regular
  constant hv := hv.known.regular
  loaded hv hread := (hv.known_of_read hread).regular
  stored hv := hv
  invalidated hv := hv.invalidate
  unusable := Value.regular_conflict

/-- Known values on the stack, and regular contents of local variables. -/
def known : SlotInvariant where
  entry := Value.Known
  content := Value.Regular
  constant hv := hv.known
  loaded hv hread := hv.known_of_read hread
  stored hv := hv.regular
  invalidated hv := hv.invalidate
  unusable := Value.regular_conflict

/-- Nullabilities that can be written by name. -/
def named : SlotInvariant where
  entry v := v.nullability ∈ Nullability.named
  content v := v.nullability ∈ Nullability.named
  constant hv := hv.named
  loaded hv hread := by
    obtain ⟨rfl, -⟩ := Value.read_eq_some_iff.mp hread
    exact hv
  stored hv := hv
  invalidated hv := by
    rw [Value.invalidate]
    split_ifs
    · decide
    · exact hv
  unusable := by decide

end SlotInvariant

namespace Frame

theorem Regular.step {f f' : Frame} {insn : Instruction} (h : f.Regular)
    (hstep : Transfer.step f insn = .ok f') : f'.Regular := by
  have hholds : SlotInvariant.regular.Holds f := ⟨h.1, h.2⟩
  have hafter := hholds.step hstep
  exact ⟨hafter.locals, hafter.stack⟩

/-- The invariant of the frames that the analysis stores: the slots are counted,
the stack holds known values only, and local variables have regular contents. -/
structure Sound (f : Frame) : Prop where
  counted : f.Counted
  slots : SlotInvariant.known.Holds f

theorem Sound.regular {f : Frame} (h : f.Sound) : f.Regular :=
  ⟨h.slots.locals, fun v hv => (h.slots.stack v hv).regular⟩

theorem Sound.step {f f' : Frame} {insn : Instruction} (h : f.Sound)
    (hstep : Transfer.step f insn = .ok f') : f'.Sound :=
  ⟨h.counted.relaxedStep (Transfer.relaxedStep_of_step hstep),
    h.slots.step hstep⟩

end Frame
end Nullness
