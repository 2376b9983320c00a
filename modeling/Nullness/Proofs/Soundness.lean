import Nullness.Proofs.Paths

/-!
# Soundness of the diagnosis

Runs of a method are sequences of positions and frames in which each frame may
know less than the one that the instruction before it leaves.  The frames that
the analysis returns cover every run, so the diagnosis flags every instruction
that dereferences a null or a possibly null value in some run.
-/

namespace Nullness

/-- One frame lies below another one with the same bounds. -/
def Frame.Le (f g : Frame) : Prop := f.maxStack = g.maxStack ∧ f.SlotLe g

instance (f g : Frame) : Decidable (f.Le g) :=
  inferInstanceAs (Decidable (f.maxStack = g.maxStack ∧ f.SlotLe g))

namespace Analysis

/-- A run of a method from its first instruction: a sequence of positions and
frames, of which the first and the next `length` ones matter. -/
structure IsRun (m : Method) (assumed : Nullability)
    (pos : Nat → Nat) (frame : Nat → Frame) (length : Nat) : Prop where
  nonempty : m.instructions ≠ []
  start_pos : pos 0 = 0
  start_le : ∃ entry, entryFrame assumed m = .ok entry ∧ (frame 0).Le entry
  regular : ∀ k ≤ length, (frame k).Regular
  next : ∀ k < length, ∃ g,
    Edge m Transfer.step (pos k) (frame k) (pos (k + 1)) g ∧
      (frame (k + 1)).Le g

variable {m : Method} {assumed : Nullability} {entry : Frame}
  {frames : Array (Option Frame)} {pos : Nat → Nat} {frame : Nat → Frame}
  {length : Nat}

/-- Every frame of a run lies below the one that the analysis has found at its
position, and has the declared bounds. -/
theorem IsRun.covered (hentry : entryFrame assumed m = .ok entry)
    (hfix : Fixpoint m entry frames) (hrun : IsRun m assumed pos frame length) :
    ∀ k ≤ length,
      Covered Frame.Below (Diagnosis.frameAt? frames) (pos k) (frame k) ∧
        (frame k).maxStack = m.maxStack.toInt.toNat := by
  intro k
  induction k with
  | zero =>
      intro hk
      obtain ⟨entry', hentry', hmax, hle⟩ := hrun.start_le
      rw [hentry] at hentry'
      cases hentry'
      have hfits := (fits_of_entryFrame hentry).1
      rw [Frame.slotLe_iff_below (hrun.regular 0 hk) hfits.regular] at hle
      rw [hrun.start_pos]
      exact ⟨hfix.started.lower hle, hmax.trans hfits.maxStack_eq⟩
  | succ k ih =>
      intro hk
      obtain ⟨hcovered, hmaxk⟩ := ih (by omega)
      obtain ⟨g, hedge, hmax, hle⟩ := hrun.next k hk
      have hg := hedge.regular (hrun.regular k (by omega))
      rw [Frame.slotLe_iff_below (hrun.regular (k + 1) hk) hg] at hle
      have hnext := hedge.covered hfix Transfer.relaxedStep_of_step hcovered
      refine ⟨hnext.lower hle, ?_⟩
      rw [hmax, hedge.maxStack_eq Transfer.relaxedStep_of_step, hmaxk]

/-- A receiver that is null or may be is flagged, if the frame lies below the
one that the analysis has found. -/
theorem Fixpoint.mem_diagnose (hfix : Fixpoint m entry frames) {p : Nat}
    {f : Frame} {insn : Instruction} {v : Value}
    (hcovered : Covered Frame.Below (Diagnosis.frameAt? frames) p f)
    (hinsn : m.instructions[p]? = some insn)
    (hreceiver : Diagnosis.receiver? f insn = some v)
    (hviolation : v.nullability.isViolation) :
    p ∈ Diagnosis.diagnose frames m.instructions := by
  obtain ⟨g, hg, hle⟩ := hcovered
  obtain ⟨depth, hdepth, hv⟩ := Diagnosis.receiver?_eq_some_iff.mp hreceiver
  obtain ⟨hlt, rfl⟩ := List.getElem?_eq_some_iff.mp hv
  have hlt' : depth < g.stack.length := hle.2.length_eq ▸ hlt
  have hbelow : f.stack[depth].Below g.stack[depth] := (hle.2.get hlt hlt').2
  have hknown := (hfix.fits hg).sound.slots.stack _ (List.getElem_mem hlt')
  refine Diagnosis.mem_diagnose_iff.mpr
    ⟨insn, g, g.stack[depth], hinsn, hg, ?_, ?_⟩
  · exact Diagnosis.receiver?_eq_some_iff.mpr
      ⟨depth, hdepth, List.getElem?_eq_getElem hlt'⟩
  · exact Value.isViolation_of_below hbelow hknown.size_ne_zero hviolation

/-- Along every run, the analysis has a frame above the one of the run, and the
diagnosis lists the position if its receiver in the run is null or may be. -/
theorem analyze_sound (h : analyze assumed m = .ok frames)
    (hrun : IsRun m assumed pos frame length) :
    ∀ k ≤ length,
      (∃ f, Diagnosis.frameAt? frames (pos k) = some f ∧ (frame k).Le f) ∧
      ∀ insn v, m.instructions[pos k]? = some insn →
        Diagnosis.receiver? (frame k) insn = some v →
        v.nullability.isViolation →
        pos k ∈ Diagnosis.diagnose frames m.instructions := by
  intro k hk
  obtain ⟨entry, hentry, hfix, -⟩ := fixpoint_of_analyze hrun.nonempty h
  obtain ⟨hcovered, hmax⟩ := hrun.covered hentry hfix k hk
  constructor
  · obtain ⟨f, hf, hle⟩ := hcovered
    have hfits := hfix.fits hf
    refine ⟨f, hf, hmax.trans hfits.maxStack_eq.symm, ?_⟩
    exact (Frame.slotLe_iff_below (hrun.regular k hk) hfits.regular).mpr hle
  · intro insn v hinsn hreceiver hviolation
    exact hfix.mem_diagnose hcovered hinsn hreceiver hviolation

/-- The positions of a run of `followLinks` once around its loop, and then into
its handler. -/
def loopPos : Nat → Nat
  | 6 => 0
  | 7 => 1
  | 8 => 6
  | k => k

/-- The frames of that run.  The seventh one is lower than the one that the jump
leaves. -/
def loopFrame : Nat → Frame
  | 0 => ⟨[.nonNull, .empty], [], 0, 1⟩
  | 1 => ⟨[.nonNull, .empty], [.nonNull], 1, 1⟩
  | 2 => ⟨[.nonNull, .empty], [.nullable], 1, 1⟩
  | 3 => ⟨[.nonNull, .nullable], [], 0, 1⟩
  | 4 => ⟨[.nonNull, .nullable], [.nullable], 1, 1⟩
  | 5 => ⟨[.nullable, .nullable], [], 0, 1⟩
  | 6 => ⟨[.nullable, .nonNull], [], 0, 1⟩
  | 7 => ⟨[.nullable, .nonNull], [.nullable], 1, 1⟩
  | _ => ⟨[.nullable, .nonNull], [.nonNull], 1, 1⟩

theorem isRun_loop : IsRun followLinks .unknown loopPos loopFrame 8 where
  nonempty := by decide
  start_pos := rfl
  start_le := ⟨loopFrame 0, by decide +kernel, by decide⟩
  regular := by decide
  next := by
    intro k hk
    obtain rfl | rfl | rfl | rfl | rfl | rfl | rfl | rfl : k = 0 ∨ k = 1 ∨
      k = 2 ∨ k = 3 ∨ k = 4 ∨ k = 5 ∨ k = 6 ∨ k = 7 := by omega
    · exact ⟨loopFrame 1, .next rfl rfl rfl (by decide), by decide⟩
    · exact ⟨loopFrame 2, .next rfl (by decide +kernel) rfl (by decide),
        by decide⟩
    · exact ⟨loopFrame 3, .next rfl rfl rfl (by decide), by decide⟩
    · exact ⟨loopFrame 4, .next rfl rfl rfl (by decide), by decide⟩
    · exact ⟨loopFrame 5, .next rfl rfl rfl (by decide), by decide⟩
    · exact ⟨loopFrame 5, .next rfl rfl rfl (by decide), by decide⟩
    · exact ⟨loopFrame 7, .next rfl rfl rfl (by decide), by decide⟩
    · exact ⟨loopFrame 8, .caughtBefore (h := ⟨0, 3, 6, []⟩) (by decide) rfl,
        by decide⟩

theorem analyze_sound_loop :
    analyze .unknown followLinks = .ok followLinksFrames ∧
      IsRun followLinks .unknown loopPos loopFrame 8 ∧
      ∀ k ≤ 8,
        (∃ f, Diagnosis.frameAt? followLinksFrames (loopPos k) = some f ∧
          (loopFrame k).Le f) ∧
        ∀ insn v, followLinks.instructions[loopPos k]? = some insn →
          Diagnosis.receiver? (loopFrame k) insn = some v →
          v.nullability.isViolation →
          loopPos k ∈
            Diagnosis.diagnose followLinksFrames followLinks.instructions :=
  ⟨analyze_followLinks, isRun_loop,
    analyze_sound analyze_followLinks isRun_loop⟩

end Analysis
end Nullness
