import Nullness.Proofs.Fixpoint

/-!
# The analysis finds the least solution

A solution of the data-flow equations of a method assigns frames to positions
such that the first one lies above the entry frame, and what an instruction
makes of its frame lies below the frames of the positions that can follow it.
The analysis returns a solution, and its frames lie below those of every other
one.

The second half rests on the transfer function being monotone.  Since it is also
partial, monotonicity is only available because every frame of a solution can
take its step.
-/

namespace Nullness
namespace Analysis

/-- A solution of the data-flow equations of a method. -/
structure IsSolution (m : Method) (entry : Frame) (G : Nat → Option Frame) :
    Prop where
  regular : ∀ {pos f}, G pos = some f → f.Regular
  start : Covered Frame.SlotLe G 0 entry
  closed : ∀ pos, Closed Frame.SlotLe m G pos

variable {m : Method} {G : Nat → Option Frame} {pos : Nat}

section Regular

variable (hG : ∀ {pos f}, G pos = some f → f.Regular)

include hG

theorem covered_slotLe_iff_below {f : Frame} (hf : f.Regular) :
    Covered Frame.SlotLe G pos f ↔ Covered Frame.Below G pos f :=
  exists_congr fun _ =>
    and_congr_right fun hg => Frame.slotLe_iff_below hf (hG hg)

/-- Equations in one order hold in another order that covers as much. -/
theorem Closed.imp {le le' : Frame → Frame → Prop}
    (hle : ∀ {p f}, f.Regular → Covered le G p f → Covered le' G p f)
    (hclosed : Closed le m G pos) : Closed le' m G pos := by
  intro insn before hinsn hbefore
  obtain ⟨after, targets, hprop⟩ := hclosed insn before hinsn hbefore
  have hregular := hG hbefore
  have hafter := hregular.step hprop.step
  refine ⟨after, targets, hprop.step, hprop.successors, ?_, ?_⟩
  · intro t ht
    exact hle hafter (hprop.next t ht)
  · intro h hmem hcovers
    obtain ⟨f, hf, hcovered⟩ := hprop.caught h hmem hcovers
    exact ⟨f, hf, hle (regular_of_handlerFrame hregular hafter hf) hcovered⟩

/-- For regular frames, the equations can be read in either order. -/
theorem closed_slotLe_iff_below :
    Closed Frame.SlotLe m G pos ↔ Closed Frame.Below m G pos := by
  constructor
  · exact Closed.imp hG fun hf => (covered_slotLe_iff_below hG hf).mp
  · exact Closed.imp hG fun hf => (covered_slotLe_iff_below hG hf).mpr

/-- To lie below an assignment that satisfies the equations is a stable
property. -/
theorem stable_covered (hclosed : ∀ pos, Closed Frame.Below m G pos) :
    Stable m (Covered Frame.Below G) where
  next := by
    rintro pos insn before after targets t hinsn - ⟨g, hg, hle⟩ hstep hsucc ht
    obtain ⟨after', targets', hprop⟩ := hclosed pos insn g hinsn hg
    have hsame := hprop.successors
    rw [hsucc] at hsame
    cases hsame
    exact (hprop.next t ht).lower
      (hle.step hprop.step (Transfer.relaxedStep_of_step hstep))
  caught := by
    rintro pos insn before after current h f hinsn hbefore ⟨g, hg, hle⟩ hstep
      hcurrent ⟨g', hg', hle'⟩ hmem hcovers hf
    rw [hg] at hg'
    cases hg'
    obtain ⟨after', targets, hprop⟩ := hclosed pos insn g hinsn hg
    obtain ⟨f', hf', hcovered⟩ := hprop.caught h hmem hcovers
    have hafter : after.Below after' :=
      hle.step hprop.step (Transfer.relaxedStep_of_step hstep)
    exact hcovered.lower
      (handlerFrame_below hcurrent.regular (hbefore.step hstep).regular (hG hg)
        ((hG hg).step hprop.step) hle' hafter hf hf')
  join := by
    rintro pos f g hf hg hsizes ⟨u, hu, hfu⟩ ⟨u', hu', hgu⟩
    rw [hu] at hu'
    cases hu'
    exact ⟨u, hu, (hf.joinable hg hsizes).join_below hfu hgu⟩

end Regular

theorem Fixpoint.stable {entry : Frame} {frames : Array (Option Frame)}
    (hfix : Fixpoint m entry frames) :
    Stable m (Covered Frame.Below (Diagnosis.frameAt? frames)) :=
  stable_covered (fun hf => (hfix.fits hf).regular) hfix.closed

/-- The frames that the analysis of a method with instructions returns are a
solution, and lie below every solution. -/
theorem analyze_least_solution {assumed : Nullability}
    {frames : Array (Option Frame)} (hne : m.instructions ≠ [])
    (h : analyze assumed m = .ok frames) :
    ∃ entry, entryFrame assumed m = .ok entry ∧
      frames.size = m.instructions.length ∧
      IsSolution m entry (Diagnosis.frameAt? frames) ∧
      ∀ G, IsSolution m entry G → ∀ pos f,
        Diagnosis.frameAt? frames pos = some f →
          Covered Frame.SlotLe G pos f := by
  obtain ⟨entry, hentry, hfix, hstable⟩ := fixpoint_of_analyze hne h
  have hregular : ∀ {pos f}, Diagnosis.frameAt? frames pos = some f →
      f.Regular := fun hf => (hfix.fits hf).regular
  have hstart := (fits_of_entryFrame hentry).1.regular
  refine ⟨entry, hentry, hfix.size_eq, ⟨hregular, ?_, ?_⟩, ?_⟩
  · exact (covered_slotLe_iff_below hregular hstart).mpr hfix.started
  · intro pos
    exact (closed_slotLe_iff_below hregular).mpr (hfix.closed pos)
  · intro G hG pos f hf
    rw [covered_slotLe_iff_below hG.regular (hregular hf)]
    refine hstable _ (stable_covered hG.regular ?_) ?_ pos f hf
    · intro p
      exact (closed_slotLe_iff_below hG.regular).mp (hG.closed p)
    · exact (covered_slotLe_iff_below hG.regular hstart).mp hG.start

theorem analyze_least_solution_followLinks :
    followLinks.instructions ≠ [] ∧
      analyze .unknown followLinks = .ok followLinksFrames ∧
      ∃ entry, entryFrame .unknown followLinks = .ok entry ∧
        followLinksFrames.size = followLinks.instructions.length ∧
        IsSolution followLinks entry (Diagnosis.frameAt? followLinksFrames) ∧
        ∀ G, IsSolution followLinks entry G → ∀ pos f,
          Diagnosis.frameAt? followLinksFrames pos = some f →
            Covered Frame.SlotLe G pos f :=
  have hne : followLinks.instructions ≠ [] := by decide
  ⟨hne, analyze_followLinks, analyze_least_solution hne analyze_followLinks⟩

end Analysis
end Nullness
