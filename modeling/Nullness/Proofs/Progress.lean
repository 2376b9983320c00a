import Nullness.Proofs.Paths

/-!
# Progress

On a path through a method that the analysis accepts, every instruction can be
carried out, with one exception: it may read a local variable that the path has
not set.  Unset variables are the one hole, because a variable that is unset on
one path and set on another counts as set where the paths meet.
-/

namespace Nullness

theorem Value.Regular.eq_empty_of_isEmpty {v : Value} (hv : v.Regular)
    (hempty : v.isEmpty) : v = .empty := by
  rcases hv with rfl | rfl | hv
  · rfl
  · exact absurd hempty (by decide)
  · rw [hv.isEmpty_eq_false] at hempty
    cases hempty

/-- Loading and relaxed loading agree, except on an unset local variable. -/
theorem Frame.loadLocal_eq_relaxedLoad_or (index : Int64) (size : UInt8)
    (f : Frame) :
    loadLocal index size f = relaxedLoad index size f ∨
      ∃ v, f.local? index = some v ∧ v.isEmpty ∧
        loadLocal index size f = .error (.error (.unusableLocal index)) f := by
  rw [relaxedLoad]
  cases hlocal : f.local? index with
  | none => exact Or.inl rfl
  | some v =>
      by_cases hempty : v.isEmpty
      · refine Or.inr ⟨v, rfl, hempty, ?_⟩
        simp [loadLocal, hlocal, hempty, refuse_eq]
      · left
        simp [hempty]

/-- A sequence does not depend on its first part beyond what that part does. -/
theorem Frame.bind_congr {α β : Type} {a a' : Action α} {b : α → Action β}
    {f : Frame} (h : a f = a' f) : (a >>= b) f = (a' >>= b) f := by
  cases ha : a f with
  | ok x g => rw [bind_of_ok ha, bind_of_ok (h ▸ ha)]
  | error failure g => rw [bind_of_error ha, bind_of_error (h ▸ ha)]

/-- Effects and relaxed effects agree, except when an unset local variable is
read. -/
theorem Effect.run_eq_relaxedRun_or (e : Effect) (f : Frame) :
    e.run f = e.relaxedRun f ∨
      ∃ index v, f.local? index = some v ∧ v.isEmpty ∧
        e.run f = .error (.error (.unusableLocal index)) f := by
  cases e with
  | load index size =>
      rcases Frame.loadLocal_eq_relaxedLoad_or index size f with
        h | ⟨v, hv, hempty, h⟩
      · exact Or.inl (Frame.bind_congr h)
      · exact Or.inr ⟨index, v, hv, hempty, Frame.bind_of_error h⟩
  | read index =>
      rcases Frame.loadLocal_eq_relaxedLoad_or index 1 f with
        h | ⟨v, hv, hempty, h⟩
      · exact Or.inl (Frame.bind_congr h)
      · exact Or.inr ⟨index, v, hv, hempty, Frame.bind_of_error h⟩
  | consume | shuffle | store | recast => exact Or.inl rfl

theorem Transfer.step_eq_relaxedStep_or (f : Frame) (insn : Instruction) :
    step f insn = relaxedStep f insn ∨
      ∃ index v, f.local? index = some v ∧ v.isEmpty ∧
        step f insn = .error (.error (.frame (.unusableLocal index))) := by
  rw [step, relaxedStep]
  cases effect insn with
  | error e => exact Or.inl rfl
  | ok e =>
      dsimp only
      rcases e.run_eq_relaxedRun_or f with h | ⟨index, v, hv, hempty, h⟩
      · rw [h]
        exact Or.inl rfl
      · refine Or.inr ⟨index, v, hv, hempty, ?_⟩
        rw [h]
        rfl

namespace Analysis

variable {m : Method} {assumed : Nullability} {frames : Array (Option Frame)}
  {pos : Nat} {f : Frame}

theorem Path.regular (hpath : Path m assumed Transfer.step pos f) :
    f.Regular := by
  induction hpath with
  | start hentry _ => exact (fits_of_entryFrame hentry).1.regular
  | extend _ hedge ih => exact hedge.regular ih

/-- Where a path leads, the analysis has found a stack of the same shape, the
instruction has successors, it can be carried out unless it reads a local
variable that the path has not set, and a handler that protects it can be
entered. -/
theorem analyze_progress (h : analyze assumed m = .ok frames)
    (hpath : Path m assumed Transfer.step pos f) :
    ∃ insn g targets, m.instructions[pos]? = some insn ∧
      Diagnosis.frameAt? frames pos = some g ∧
      f.stack.map (·.size) = g.stack.map (·.size) ∧
      Flow.successors m.instructions pos insn = .ok targets ∧
      ((∃ after, Transfer.step f insn = .ok after) ∨
        ∃ index, f.local? index = some .empty ∧ Transfer.step f insn =
          .error (.error (.frame (.unusableLocal index)))) ∧
      ∀ handler ∈ m.handlers, handler.covers pos →
        Frame.push .nonNull f.clearStack = .ok () f.caught ∧
          ∀ after, Transfer.step f insn = .ok after →
            Frame.push .nonNull after.clearStack = .ok () after.caught := by
  obtain ⟨entry, hentry, hfix, -⟩ :=
    fixpoint_of_analyze hpath.instructions_ne_nil h
  have hacc := hpath.accounted hentry hfix Transfer.relaxedStep_of_step
  obtain ⟨g, insn, targets, after, hg, hinsn, hsucc, hsizes, hrelaxed⟩ :=
    hacc.exists_relaxedStep hfix
  refine ⟨insn, g, targets, hinsn, hg, hsizes, hsucc, ?_, ?_⟩
  · rcases Transfer.step_eq_relaxedStep_or f insn with
      hstep | ⟨index, v, hlocal, hempty, hstep⟩
    · exact Or.inl ⟨after, hstep.trans hrelaxed⟩
    · refine Or.inr ⟨index, ?_, hstep⟩
      obtain ⟨-, hget⟩ := Frame.local?_eq_some_iff.mp hlocal
      have hregular := hpath.regular.1 v (List.mem_of_getElem? hget)
      rw [hlocal, hregular.eq_empty_of_isEmpty hempty]
  · intro handler hmem hcovers
    have hroom : 0 < f.maxStack := by
      rw [hacc.maxStack_eq]
      exact hfix.room hg hmem hcovers
    constructor
    · rw [Frame.push_nonNull_clearStack, if_pos hroom]
    · intro after hstep
      have hkept := Transfer.maxStack_of_relaxedStep
        (Transfer.relaxedStep_of_step hstep)
      rw [Frame.push_nonNull_clearStack, if_pos (by rwa [hkept])]

/-- The frame of `followLinks` in which nothing has been set yet. -/
def unsetFrame : Frame := ⟨[.nonNull, .empty], [], 0, 1⟩

/-- A path of `followLinks` that throws at once comes to the second read of
local variable 1 without having set it. -/
theorem path_followLinks :
    Path followLinks .unknown Transfer.step 7 unsetFrame := by
  have hstart : Path followLinks .unknown Transfer.step 0 unsetFrame :=
    .start (by decide +kernel) (by decide)
  have hcaught : Path followLinks .unknown Transfer.step 6 unsetFrame.caught :=
    hstart.extend (.caughtBefore (h := ⟨0, 3, 6, []⟩) (by decide) rfl)
  exact hcaught.extend (.next rfl rfl rfl (by decide))

theorem analyze_progress_followLinks :
    analyze .unknown followLinks = .ok followLinksFrames ∧
      Path followLinks .unknown Transfer.step 7 unsetFrame ∧
      ∃ insn g targets, followLinks.instructions[7]? = some insn ∧
        Diagnosis.frameAt? followLinksFrames 7 = some g ∧
        unsetFrame.stack.map (·.size) = g.stack.map (·.size) ∧
        Flow.successors followLinks.instructions 7 insn = .ok targets ∧
        ((∃ after, Transfer.step unsetFrame insn = .ok after) ∨
          ∃ index, unsetFrame.local? index = some .empty ∧
            Transfer.step unsetFrame insn =
              .error (.error (.frame (.unusableLocal index)))) ∧
        ∀ handler ∈ followLinks.handlers, handler.covers 7 →
          Frame.push .nonNull unsetFrame.clearStack = .ok () unsetFrame.caught ∧
            ∀ after, Transfer.step unsetFrame insn = .ok after →
              Frame.push .nonNull after.clearStack = .ok () after.caught :=
  ⟨analyze_followLinks, path_followLinks,
    analyze_progress analyze_followLinks path_followLinks⟩

end Analysis
end Nullness
