import Nullness.Proofs.Fixpoint

/-!
# Paths through a method

A path goes from an instruction to one of its successors, or to a handler that
protects it.  An instruction may throw before or after it has changed the local
variables, so a handler can be entered with either.  How the instructions along
a path are carried out is a parameter, because paths of relaxed steps play a
part as well.

The frames that the analysis returns simulate every path: the frame that a path
has at a position lies below the one that the analysis has found there.
-/

namespace Nullness

namespace Diagnosis

variable {frames : Array (Option Frame)} {insns : List Instruction} {pos : Nat}
  {f : Frame} {insn : Instruction} {v : Value}

theorem receiver?_eq_some_iff :
    receiver? f insn = some v ↔
      ∃ depth, receiverDepth? insn = some depth ∧ f.stack[depth]? = some v := by
  rw [receiver?, Option.bind_eq_some_iff]
  refine exists_congr fun depth => and_congr_right fun _ => ?_
  rw [Frame.peek?, if_neg (by omega), Int.toNat_natCast]

/-- A position is flagged exactly if it has been reached and the receiver of its
instruction is null or may be. -/
theorem mem_diagnose_iff :
    pos ∈ diagnose frames insns ↔ ∃ insn f v, insns[pos]? = some insn ∧
      frameAt? frames pos = some f ∧ receiver? f insn = some v ∧
      v.nullability.isViolation := by
  have hflagged : ∀ {frame : Option Frame} {insn : Instruction},
      isFlagged frame insn = true ↔ ∃ f v, frame = some f ∧
        receiver? f insn = some v ∧ v.nullability.isViolation := by
    intro frame insn
    cases frame with
    | none => simp [isFlagged]
    | some f =>
        cases hreceiver : receiver? f insn <;> simp [isFlagged, hreceiver]
  rw [diagnose, List.mem_filterMap]
  constructor
  · rintro ⟨⟨insn, p⟩, hmem, hsome⟩
    rw [List.mem_zipIdx_iff_getElem?] at hmem
    dsimp only at hsome hmem
    split_ifs at hsome with hflag
    cases hsome
    obtain ⟨f, v, hf, hv, hviolation⟩ := hflagged.mp hflag
    exact ⟨insn, f, v, hmem, hf, hv, hviolation⟩
  · rintro ⟨insn, f, v, hinsn, hf, hv, hviolation⟩
    refine ⟨(insn, pos), List.mem_zipIdx_iff_getElem?.mpr hinsn, ?_⟩
    exact if_pos (hflagged.mpr ⟨f, v, hf, hv, hviolation⟩)

end Diagnosis

namespace Analysis

/-- One edge of a path: from a position with the frame before its instruction to
a position that can come next. -/
inductive Edge (m : Method)
    (step : Frame → Instruction → Except (Failure Transfer.Error) Frame)
    (pos : Nat) (f : Frame) : Nat → Frame → Prop
  | next {insn : Instruction} {after : Frame} {targets : List Nat} {t : Nat}
      (hinsn : m.instructions[pos]? = some insn)
      (hstep : step f insn = .ok after)
      (hsucc : Flow.successors m.instructions pos insn = .ok targets)
      (ht : t ∈ targets) : Edge m step pos f t after
  | caughtBefore {h : Handler} (hmem : h ∈ m.handlers)
      (hcovers : h.covers pos) :
      Edge m step pos f h.target.toInt.toNat f.caught
  | caughtAfter {insn : Instruction} {after : Frame} {h : Handler}
      (hinsn : m.instructions[pos]? = some insn)
      (hstep : step f insn = .ok after) (hmem : h ∈ m.handlers)
      (hcovers : h.covers pos) :
      Edge m step pos f h.target.toInt.toNat after.caught

/-- The positions and frames at the ends of the paths that start at the first
instruction with the entry frame. -/
inductive Path (m : Method) (assumed : Nullability)
    (step : Frame → Instruction → Except (Failure Transfer.Error) Frame) :
    Nat → Frame → Prop
  | start {entry : Frame} (hentry : entryFrame assumed m = .ok entry)
      (hne : m.instructions ≠ []) : Path m assumed step 0 entry
  | extend {pos pos' : Nat} {f f' : Frame} (hpath : Path m assumed step pos f)
      (hedge : Edge m step pos f pos' f') : Path m assumed step pos' f'

variable {m : Method} {assumed : Nullability} {entry : Frame}
  {frames : Array (Option Frame)}
  {step : Frame → Instruction → Except (Failure Transfer.Error) Frame}
  {pos pos' : Nat} {f f' : Frame}

theorem Path.instructions_ne_nil (hpath : Path m assumed step pos f) :
    m.instructions ≠ [] := by
  induction hpath with
  | start _ hne => exact hne
  | extend _ _ ih => exact ih

theorem Edge.regular (hf : f.Regular)
    (hedge : Edge m Transfer.step pos f pos' f') : f'.Regular := by
  cases hedge with
  | next _ hstep => exact hf.step hstep
  | caughtBefore => exact hf.caught
  | caughtAfter _ hstep => exact (hf.step hstep).caught

theorem Fixpoint.exists_instruction (hfix : Fixpoint m entry frames)
    {g : Frame} (hg : Diagnosis.frameAt? frames pos = some g) :
    ∃ insn, m.instructions[pos]? = some insn := by
  rw [Diagnosis.frameAt?, Option.join_eq_some_iff] at hg
  obtain ⟨hpos, -⟩ := Array.getElem?_eq_some_iff.mp hg
  rw [hfix.size_eq] at hpos
  exact ⟨m.instructions[pos], List.getElem?_eq_getElem hpos⟩

/-- Where a handler can be entered, the stack has room for the exception. -/
theorem Fixpoint.room (hfix : Fixpoint m entry frames) {g : Frame} {h : Handler}
    (hg : Diagnosis.frameAt? frames pos = some g) (hmem : h ∈ m.handlers)
    (hcovers : h.covers pos) : 0 < m.maxStack.toInt.toNat := by
  obtain ⟨insn, hinsn⟩ := hfix.exists_instruction hg
  obtain ⟨after, targets, hprop⟩ := hfix.closed pos insn g hinsn hg
  obtain ⟨hf, hhandler, -⟩ := hprop.caught h hmem hcovers
  rw [← (hfix.fits hg).maxStack_eq]
  exact (handlerFrame_eq_ok_iff.mp hhandler).2.1

section Simulation

variable (hfix : Fixpoint m entry frames)
  (hrelaxed : ∀ {f insn after}, step f insn = .ok after →
    Transfer.relaxedStep f insn = .ok after)

include hfix hrelaxed

/-- One edge of a path stays below the frames of the analysis. -/
theorem Edge.covered
    (hcovered : Covered Frame.Below (Diagnosis.frameAt? frames) pos f)
    (hedge : Edge m step pos f pos' f') :
    Covered Frame.Below (Diagnosis.frameAt? frames) pos' f' := by
  obtain ⟨g, hg, hle⟩ := hcovered
  obtain ⟨insn, hinsn⟩ := hfix.exists_instruction hg
  obtain ⟨after, targets, hprop⟩ := hfix.closed pos insn g hinsn hg
  have hregular := (hfix.fits hg).regular
  have hregular' := hregular.step hprop.step
  cases hedge with
  | next hinsn' hstep hsucc ht =>
      rw [hinsn] at hinsn'
      cases hinsn'
      have hsame := hprop.successors
      rw [hsucc] at hsame
      cases hsame
      exact (hprop.next _ ht).lower (hle.step hprop.step (hrelaxed hstep))
  | @caughtBefore h hmem hcovers =>
      obtain ⟨u, hu, hcovered⟩ := hprop.caught h hmem hcovers
      exact hcovered.lower (Frame.below_trans hle.caught
        (caught_before_below hregular hregular' hu))
  | @caughtAfter _ _ h hinsn' hstep hmem hcovers =>
      rw [hinsn] at hinsn'
      cases hinsn'
      obtain ⟨u, hu, hcovered⟩ := hprop.caught h hmem hcovers
      have hafter := hle.step hprop.step (hrelaxed hstep)
      exact hcovered.lower (Frame.below_trans hafter.caught
        (caught_after_below hregular hregular' hu))

omit hfix in
theorem Edge.maxStack_eq (hedge : Edge m step pos f pos' f') :
    f'.maxStack = f.maxStack := by
  cases hedge with
  | next _ hstep => exact Transfer.maxStack_of_relaxedStep (hrelaxed hstep)
  | caughtBefore => rfl
  | @caughtAfter insn after h _ hstep =>
      have hkept : after.maxStack = f.maxStack :=
        Transfer.maxStack_of_relaxedStep (hrelaxed hstep)
      exact hkept

end Simulation

/-- A frame that the analysis accounts for: it lies below the one found at its
position, and its slots are counted and within the declared bound. -/
structure Accounted (m : Method) (frames : Array (Option Frame)) (pos : Nat)
    (f : Frame) : Prop where
  covered : Covered Frame.Below (Diagnosis.frameAt? frames) pos f
  counted : f.Counted
  maxStack_eq : f.maxStack = m.maxStack.toInt.toNat

theorem Edge.accounted (hfix : Fixpoint m entry frames)
    (hrelaxed : ∀ {f insn after}, step f insn = .ok after →
      Transfer.relaxedStep f insn = .ok after)
    (hf : Accounted m frames pos f) (hedge : Edge m step pos f pos' f') :
    Accounted m frames pos' f' := by
  obtain ⟨g, hg, -⟩ := hf.covered
  have hmax := (hedge.maxStack_eq hrelaxed).trans hf.maxStack_eq
  refine ⟨hedge.covered hfix hrelaxed hf.covered, ?_, hmax⟩
  cases hedge with
  | next _ hstep => exact hf.counted.relaxedStep (hrelaxed hstep)
  | caughtBefore hmem hcovers =>
      refine ⟨rfl, ?_⟩
      rw [hmax]
      exact hfix.room hg hmem hcovers
  | caughtAfter _ _ hmem hcovers =>
      refine ⟨rfl, ?_⟩
      rw [hmax]
      exact hfix.room hg hmem hcovers

/-- The analysis accounts for the frame at the end of every path. -/
theorem Path.accounted (hentry : entryFrame assumed m = .ok entry)
    (hfix : Fixpoint m entry frames)
    (hrelaxed : ∀ {f insn after}, step f insn = .ok after →
      Transfer.relaxedStep f insn = .ok after)
    (hpath : Path m assumed step pos f) : Accounted m frames pos f := by
  induction hpath with
  | start hentry' _ =>
      rw [hentry] at hentry'
      cases hentry'
      have hfits := (fits_of_entryFrame hentry).1
      exact ⟨hfix.started, hfits.sound.counted, hfits.maxStack_eq⟩
  | extend _ hedge ih => exact hedge.accounted hfix hrelaxed ih

/-- Its stack has the same room as those of the frames that fit the method. -/
theorem Accounted.room {g : Frame} (hf : Accounted m frames pos f)
    (hg : Frame.Fits m g) : f.Counted ∧ f.maxStack = g.maxStack :=
  ⟨hf.counted, hf.maxStack_eq.trans hg.maxStack_eq.symm⟩

/-- A frame that the analysis accounts for has a stack of the shape found at its
position, and the instruction there has successors and can be carried out in the
relaxed way. -/
theorem Accounted.exists_relaxedStep (hfix : Fixpoint m entry frames)
    (hf : Accounted m frames pos f) :
    ∃ g insn targets after, Diagnosis.frameAt? frames pos = some g ∧
      m.instructions[pos]? = some insn ∧
      Flow.successors m.instructions pos insn = .ok targets ∧
      f.stack.map (·.size) = g.stack.map (·.size) ∧
      Transfer.relaxedStep f insn = .ok after := by
  obtain ⟨g, hg, hle⟩ := hf.covered
  obtain ⟨insn, hinsn⟩ := hfix.exists_instruction hg
  obtain ⟨after, targets, hprop⟩ := hfix.closed pos insn g hinsn hg
  have hsizes := hle.sizes_eq
  have hslots : f.slots = g.slots := by
    rw [hf.counted.slots_eq, (hfix.fits hg).sound.counted.slots_eq]
    exact slotCount_eq_of_sizes hsizes
  obtain ⟨after', hrelaxed, -⟩ :=
    hle.exists_relaxedStep hprop.step hslots (hf.room (hfix.fits hg)).2
  exact ⟨g, insn, targets, after', hg, hinsn, hprop.successors, hsizes,
    hrelaxed⟩

end Analysis
end Nullness
