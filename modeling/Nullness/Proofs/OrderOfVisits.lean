import Nullness.Proofs.Progress
import Nullness.Proofs.Schedule

/-!
# What the order of the visits decides

The frames that the analysis finds do not depend on the order of its visits: if
two rules both lead to an end at which nothing is pending, they lead to the same
frames.  Whether they lead there does depend on it.  A local variable that no
path seen so far has set cannot be read, but it counts as set as soon as another
path has set it.  So an instruction that reads it fails if it is visited before
that path is, and succeeds if it is visited after.

This is the only way in which the order matters.  If one rule leads to an end,
then every frame that another rule comes across lies below one of those that the
first rule has found, and there an instruction can be carried out unless it
reads an unset local variable.
-/

namespace Nullness
namespace Analysis

open State (Holding Fitting)

variable {m : Method} {assumed : Nullability} {entry : Frame}
  {frames : Array (Option Frame)} {s s' : State} {pos : Nat}
  {before after : Frame}

/-! ## Visits below a solution -/

/-- A state whose frames fit the method and lie below given frames. -/
abbrev State.Under (m : Method) (frames : Array (Option Frame)) (s : State) :
    Prop :=
  Holding m (Covered Frame.Below (Diagnosis.frameAt? frames)) s

section Under

variable (hfix : Fixpoint m entry frames)

include hfix

/-- Frames that lie below those at the same position can be merged. -/
theorem State.Under.exists_flow {f : Frame} (hs : s.Under m frames)
    (hpos : pos < m.instructions.length) (hf : Frame.Fits m f)
    (hcovered : Covered Frame.Below (Diagnosis.frameAt? frames) pos f) :
    ∃ s', s.flow pos f = .ok s' ∧ s'.Under m frames := by
  obtain ⟨u, hu, hle⟩ := hcovered
  have hsizes : ∀ g, s.frame? pos = some g →
      g.stack.map (·.size) = f.stack.map (·.size) := by
    intro g hg
    obtain ⟨u', hu', hle'⟩ := hs.holds hg
    rw [hu, Option.some.injEq] at hu'
    subst hu'
    exact hle'.sizes_eq.trans hle.sizes_eq.symm
  have hflow := hs.flow_eq hf hsizes
  exact ⟨_, hflow, hs.flow hpos hf hflow hfix.stable.join ⟨u, hu, hle⟩⟩

theorem State.Under.exists_flowOut {targets : List Nat} (hs : s.Under m frames)
    (hafter : Frame.Fits m after)
    (htargets : ∀ t ∈ targets, t < m.instructions.length ∧
      Covered Frame.Below (Diagnosis.frameAt? frames) t after) :
    ∃ s', flowOut after s targets = .ok s' := by
  induction targets generalizing s with
  | nil => exact ⟨s, rfl⟩
  | cons target targets ih =>
      obtain ⟨htarget, hcovered⟩ := htargets target (by simp)
      obtain ⟨s₁, hflow, hs₁⟩ := hs.exists_flow hfix htarget hafter hcovered
      obtain ⟨s', hrest⟩ := ih hs₁ fun t ht => htargets t (by simp [ht])
      refine ⟨s', ?_⟩
      rw [flowOut, hflow]
      exact hrest

theorem State.Under.exists_flowToHandlers {handlers : List Handler}
    (hs : s.Under m frames) (hbefore : s.frame? pos = some before)
    (hafter : Frame.Fits m after)
    (hcaught : ∀ h ∈ handlers, h.covers pos → 0 < m.maxStack.toInt.toNat ∧
      ∀ current f, Frame.Fits m current →
        Covered Frame.Below (Diagnosis.frameAt? frames) pos current →
        handlerFrame current after = .ok f →
        h.target.toInt.toNat < m.instructions.length ∧
          Covered Frame.Below (Diagnosis.frameAt? frames)
            h.target.toInt.toNat f) :
    ∃ s', flowToHandlers pos after s handlers = .ok s' := by
  induction handlers generalizing s before with
  | nil => exact ⟨s, rfl⟩
  | cons handler handlers ih =>
      rw [flowToHandlers, hbefore, Option.getD_some]
      split_ifs with hcovers
      · obtain ⟨hroom, hnext⟩ := hcaught handler (by simp) hcovers
        have hfits := hs.fits hbefore
        have hhandler : handlerFrame before after =
            .ok (before.caught.join after.caught) :=
          (handlerFrame_eq_ok_iff_of_fits hfits hafter).mpr ⟨hroom, rfl⟩
        obtain ⟨htarget, hcovered⟩ :=
          hnext before _ hfits (hs.holds hbefore) hhandler
        have hincoming := fits_of_handlerFrame hfits hafter hhandler
        obtain ⟨s₁, hflow, hs₁⟩ :=
          hs.exists_flow hfix htarget hincoming hcovered
        obtain ⟨before₁, hbefore₁, -⟩ :=
          (hs.grows_of_flow htarget hincoming hflow).rises hbefore
        rw [hhandler]
        dsimp only
        rw [hflow]
        apply ih hs₁ hbefore₁
        intro h hmem
        exact hcaught h (by simp [hmem])
      · apply ih hs hbefore
        intro h hmem
        exact hcaught h (by simp [hmem])

/-- Where the instruction can be carried out, its result can be passed on. -/
theorem State.Under.exists_propagate {insn : Instruction}
    {targets : List Nat} (hs : s.Under m frames)
    (hhandlers : ∀ h ∈ m.handlers,
      h.target.toInt.toNat < m.instructions.length)
    (hinsn : m.instructions[pos]? = some insn)
    (hbefore : s.frame? pos = some before)
    (hstep : Transfer.step before insn = .ok after)
    (hsucc : Flow.successors m.instructions pos insn = .ok targets) :
    ∃ s', propagate m s pos insn before = .ok s' := by
  have hfits := hs.fits hbefore
  have hcovered := hs.holds hbefore
  have hafter := hfits.step hstep
  have htargets : ∀ t ∈ targets, t < m.instructions.length ∧
      Covered Frame.Below (Diagnosis.frameAt? frames) t after := by
    intro t ht
    exact ⟨Flow.lt_of_mem_successors hsucc t ht,
      hfix.stable.next hinsn hfits hcovered hstep hsucc ht⟩
  obtain ⟨s₁, hout⟩ := hs.exists_flowOut hfix hafter htargets
  obtain ⟨hs₁, hgrows, -⟩ :=
    flowOut_spec hfix.stable.join hs hafter htargets hout
  obtain ⟨before₁, hbefore₁, -⟩ := hgrows.rises hbefore
  obtain ⟨s', hcaught⟩ : ∃ s', flowToHandlers pos after s₁ m.handlers =
    .ok s' := by
    apply State.Under.exists_flowToHandlers hfix hs₁ hbefore₁ hafter
    intro h hmem hcovers
    have hroom : 0 < m.maxStack.toInt.toNat := by
      obtain ⟨g, hg, -⟩ := hcovered
      exact hfix.room hg hmem hcovers
    refine ⟨hroom, ?_⟩
    intro current f hcurrent hcoveredCurrent hf
    exact ⟨hhandlers h hmem, hfix.stable.caught hinsn hfits hcovered hstep
      hcurrent hcoveredCurrent hmem hcovers hf⟩
  exact ⟨s', propagate_eq_ok_iff.mpr
    ⟨after, targets, s₁, hstep, hsucc, hout, hcaught⟩⟩

/-- A visit that fails below a solution reads a local variable that is not set
in the frame of its position. -/
theorem State.Under.eq_of_visit_error {failure : Failure Malformed}
    (hs : s.Under m frames)
    (hhandlers : ∀ h ∈ m.handlers,
      h.target.toInt.toNat < m.instructions.length)
    (h : visit m s pos = .error failure) :
    ∃ insn f index, m.instructions[pos]? = some insn ∧
      s.frame? pos = some f ∧ f.local? index = some .empty ∧
      failure = .error ⟨m.signature, some (pos, insn.opcode),
        .transfer (.frame (.unusableLocal index))⟩ := by
  rw [visit] at h
  split at h
  · rename_i insn f hinsn hf
    have hfits := hs.fits hf
    have haccounted : Accounted m frames pos f :=
      ⟨hs.holds hf, hfits.sound.counted, hfits.maxStack_eq⟩
    obtain ⟨-, insn', targets, after, -, hinsn', hsucc, -, hrelaxed⟩ :=
      haccounted.exists_relaxedStep hfix
    rw [hinsn, Option.some.injEq] at hinsn'
    subst hinsn'
    rcases Transfer.step_eq_relaxedStep_or f insn with
      hstep | ⟨index, v, hlocal, hempty, hstep⟩
    · -- An instruction that can be carried out has nowhere to fail.
      obtain ⟨s', hpropagate⟩ := State.Under.exists_propagate hfix
        (Holding.leave hs pos) hhandlers hinsn hf (hstep.trans hrelaxed) hsucc
      rw [State.leave] at hpropagate
      rw [hpropagate] at h
      cases h
    · obtain ⟨-, hget⟩ := Frame.local?_eq_some_iff.mp hlocal
      have hregular := hfits.regular.1 v (List.mem_of_getElem? hget)
      rw [hregular.eq_empty_of_isEmpty hempty] at hlocal
      rw [propagate, hstep] at h
      cases h
      exact ⟨insn, f, index, hinsn, hf, hlocal, rfl⟩
  · cases h

end Under

/-! ## Two rules -/

theorem State.frames_eq_of_frame? (hsize : s.frames.size = s'.frames.size)
    (hframe : ∀ pos, s.frame? pos = s'.frame? pos) : s.frames = s'.frames := by
  refine Array.ext hsize fun pos hpos hpos' => ?_
  have hjoin := hframe pos
  rw [State.frame?, State.frame?, Array.getElem?_eq_getElem hpos,
    Array.getElem?_eq_getElem hpos'] at hjoin
  exact hjoin

variable {rule rule' : Rule} {past past' : List Nat}

/-- What a rule has found when nothing is pending any more. -/
theorem Reached.fixpoint (h : Reached rule m entry past s)
    (henters : Enters assumed m entry) (hpending : s.pending = []) :
    Fixpoint m entry s.frames :=
  (h.invariant henters (stable_true m) trivial).fixpoint hpending

/-- The frames that a rule comes across lie below every solution. -/
theorem Reached.under (h : Reached rule m entry past s)
    (henters : Enters assumed m entry) (hfix : Fixpoint m entry frames) :
    s.Under m frames :=
  (h.invariant henters hfix.stable hfix.started).holding

theorem Reached.frames_eq (h : Reached rule m entry past s)
    (h' : Reached rule' m entry past' s') (henters : Enters assumed m entry)
    (hpending : s.pending = []) (hpending' : s'.pending = []) :
    s.frames = s'.frames := by
  have hunder := h.under henters (h'.fixpoint henters hpending')
  have hunder' := h'.under henters (h.fixpoint henters hpending)
  apply State.frames_eq_of_frame?
  · rw [hunder.size_eq, hunder'.size_eq]
  · intro pos
    cases hf : s.frame? pos with
    | some f =>
        obtain ⟨g, hg, hle⟩ := hunder.holds hf
        obtain ⟨f', hf', hge⟩ := hunder'.holds hg
        have hsame : f' = f := Option.some.inj (hf'.symm.trans hf)
        subst hsame
        have hframe : s'.frame? pos = some g := hg
        rw [hframe, (hunder.fits hf).below_antisymm (hunder'.fits hg) hle hge]
    | none =>
        cases hg : s'.frame? pos with
        | none => rfl
        | some g =>
            obtain ⟨f, hf', -⟩ := hunder'.holds hg
            have hframe : s.frame? pos = some f := hf'
            rw [hf] at hframe
            cases hframe

/-- Under a rule, the visits come to an instruction that reads a local variable
which is not set in the frame that the position has at that moment, and end with
the error that says so. -/
inductive StopsAtUnset (rule : Rule) (assumed : Nullability) (m : Method) :
    Failure Malformed → Prop
  | intro {entry f : Frame} {past : List Nat} {s : State} {insn : Instruction}
      {index : Int64} (henters : Enters assumed m entry)
      (hreached : Reached rule m entry past s) (hpending : s.pending ≠ [])
      (hinsn : m.instructions[rule.pick past s]? = some insn)
      (hframe : s.frame? (rule.pick past s) = some f)
      (hunset : f.local? index = some .empty) :
      StopsAtUnset rule assumed m
        (.error ⟨m.signature, some (rule.pick past s, insn.opcode),
          .transfer (.frame (.unusableLocal index))⟩)

/-- If one rule comes to an end at which nothing is pending, another rule can
only fail to do so at an unset local variable. -/
theorem Ends.stopsAtUnset {failure : Failure Malformed}
    (h : Ends rule m entry (.error failure))
    (h' : Ends rule' m entry (.ok s')) (henters : Enters assumed m entry) :
    StopsAtUnset rule assumed m failure := by
  obtain ⟨hreached', hpending'⟩ | _ := h'
  obtain _ | ⟨hreached, hpending, hvisit⟩ := h
  have hfix := hreached'.fixpoint henters hpending'
  obtain ⟨insn, f, index, hinsn, hframe, hunset, rfl⟩ :=
    State.Under.eq_of_visit_error hfix (hreached.under henters hfix)
      henters.target_lt hvisit
  exact .intro henters hreached hpending hinsn hframe hunset

/-- Under every rule the visits come to an end.  If this rule and the analysis
both end without an error, they return the same frames; if only one of them
does, the other one has met a local variable that was not set yet. -/
theorem analyzeBy_agrees (rule : Rule) (assumed : Nullability) (m : Method) :
    ∃ result, analyzeBy rule assumed m = some result ∧
      (∀ frames frames', analyze assumed m = .ok frames →
        result = .ok frames' → frames = frames') ∧
      (∀ frames failure, analyze assumed m = .ok frames →
        result = .error failure → StopsAtUnset rule assumed m failure) ∧
      (∀ failure frames, analyze assumed m = .error failure →
        result = .ok frames → StopsAtUnset .lowest assumed m failure) := by
  rcases analyzeBy_cases rule assumed m with hsame | ⟨entry, henters, hby⟩
  · refine ⟨analyze assumed m, hsame, ?_, ?_, ?_⟩
    · intro frames frames' h h'
      rw [h] at h'
      injection h'
    · intro frames failure h h'
      rw [h] at h'
      cases h'
    · intro failure frames h h'
      rw [h] at h'
      cases h'
  · obtain ⟨result, hrun, hends⟩ := henters.exists_runBy rule
    obtain ⟨lowest, hlowest, hall⟩ := exists_ends_run henters
    refine ⟨result.map State.frames, by rw [hby, hrun]; rfl, ?_⟩
    rw [henters.analyze_eq, hall _ (Nat.le_refl _)]
    cases lowest with
    | ok s =>
        cases result with
        | ok s' =>
            obtain ⟨hreached, hpending⟩ | _ := hlowest
            obtain ⟨hreached', hpending'⟩ | _ := hends
            refine ⟨?_, by rintro _ _ _ ⟨⟩, by rintro _ _ ⟨⟩⟩
            rintro _ _ ⟨⟩ ⟨⟩
            exact hreached.frames_eq hreached' henters hpending hpending'
        | error failure =>
            refine ⟨by rintro _ _ _ ⟨⟩, ?_, by rintro _ _ ⟨⟩⟩
            rintro _ _ _ ⟨⟩
            exact hends.stopsAtUnset hlowest henters
    | error failure =>
        cases result with
        | ok s' =>
            refine ⟨by rintro _ _ ⟨⟩, by rintro _ _ ⟨⟩, ?_⟩
            rintro _ _ ⟨⟩ _
            exact hlowest.stopsAtUnset hends henters
        | error failure' =>
            exact ⟨by rintro _ _ ⟨⟩, by rintro _ _ ⟨⟩, by rintro _ _ _ ⟨⟩⟩

/-- A method with a reference parameter and room for a copy of it. -/
def returnCopy (instructions : List Instruction) : Method where
  owner := text "Node"
  name := text "copy"
  desc := text "(LNode;)LNode;"
  isStatic := true
  maxStack := 1
  maxLocals := 2
  instructions := instructions
  handlers := []
  params := []

/-- Copies the parameter unless it is null, and returns the copy.  The copy is
made at positions before the one where it is returned. -/
def copyFirst : Method := returnCopy [
  .var ⟨25⟩ 0, -- aload 0
  .jump ⟨198⟩ 4, -- ifnull 4
  .var ⟨25⟩ 0, -- aload 0
  .var ⟨58⟩ 1, -- astore 1
  .var ⟨25⟩ 1, -- aload 1
  .plain ⟨176⟩] -- areturn

/-- The same with the copy made at positions after the one where it is
returned. -/
def copyLast : Method := returnCopy [
  .var ⟨25⟩ 0, -- aload 0
  .jump ⟨199⟩ 4, -- ifnonnull 4
  .var ⟨25⟩ 1, -- aload 1
  .plain ⟨176⟩, -- areturn
  .var ⟨25⟩ 0, -- aload 0
  .var ⟨58⟩ 1, -- astore 1
  .jump .goto 2]

/-- A frame of these methods, with the given copy and stack. -/
def copyFrame (copy : Value) (stack : List Value) : Option Frame :=
  some ⟨[.nullable, copy], stack, stack.length, 1⟩

/-- Whether a method is accepted depends on the order of the visits: each of two
orders accepts a method that the other one rejects. -/
theorem acceptance_depends_on_order :
    (analyze .unknown copyLast = .error (.error ⟨copyLast.signature,
        some (2, ⟨25⟩), .transfer (.frame (.unusableLocal 1))⟩) ∧
      ∃ frames, analyzeBy .highest .unknown copyLast = some (.ok frames)) ∧
    (∃ frames, analyze .unknown copyFirst = .ok frames) ∧
      analyzeBy .highest .unknown copyFirst = some (.error (.error
        ⟨copyFirst.signature, some (4, ⟨25⟩),
          .transfer (.frame (.unusableLocal 1))⟩)) := by
  refine ⟨⟨by decide +kernel, ?_⟩, ?_, by decide +kernel⟩
  · exact ⟨#[copyFrame .empty [], copyFrame .empty [.nullable],
      copyFrame .nullable [], copyFrame .nullable [.nullable],
      copyFrame .empty [], copyFrame .empty [.nullable],
      copyFrame .nullable []], by decide +kernel⟩
  · exact ⟨#[copyFrame .empty [], copyFrame .empty [.nullable],
      copyFrame .empty [], copyFrame .empty [.nullable],
      copyFrame .nullable [], copyFrame .nullable [.nullable]],
      by decide +kernel⟩

end Analysis
end Nullness
