import Nullness.Diagnosis
import Nullness.Proofs.Worklist

/-!
# What the analysis of a method returns

The frames that the analysis returns are closed under the data-flow equations:
what an instruction makes of its frame lies below the frames of the positions
that can follow it, handlers included.  The invariant behind this is that every
position that is not pending is closed already.  The bound on the number of
visits is large enough to leave nothing pending, since each visit uses up some
of the work that is left.

Conversely, the frames have every property that the entry frame has and that the
equations and joins keep.
-/

namespace Nullness
namespace Analysis

open State (Holding Grows JoinClosed)

/-- What an instruction makes of its frame lies below the frames that an
assignment gives to the positions that can follow it. -/
structure Propagated (le : Frame → Frame → Prop) (m : Method)
    (G : Nat → Option Frame) (pos : Nat) (insn : Instruction)
    (before after : Frame) (targets : List Nat) : Prop where
  step : Transfer.step before insn = .ok after
  successors : Flow.successors m.instructions pos insn = .ok targets
  next : ∀ t ∈ targets, Covered le G t after
  caught : ∀ h ∈ m.handlers, h.covers pos → ∃ f,
    handlerFrame before after = .ok f ∧ Covered le G h.target.toInt.toNat f

/-- An assignment satisfies the data-flow equations of the instructions that it
assigns a frame to. -/
def Closed (le : Frame → Frame → Prop) (m : Method)
    (G : Nat → Option Frame) (pos : Nat) : Prop :=
  ∀ insn before, m.instructions[pos]? = some insn → G pos = some before →
    ∃ after targets, Propagated le m G pos insn before after targets

/-- A property of frames and positions that the data-flow equations and joins
keep. -/
structure Stable (m : Method) (Q : Nat → Frame → Prop) : Prop where
  next : ∀ {pos insn before after targets t},
    m.instructions[pos]? = some insn → Frame.Fits m before → Q pos before →
    Transfer.step before insn = .ok after →
    Flow.successors m.instructions pos insn = .ok targets → t ∈ targets →
    Q t after
  caught : ∀ {pos insn before after current h f},
    m.instructions[pos]? = some insn → Frame.Fits m before → Q pos before →
    Transfer.step before insn = .ok after →
    Frame.Fits m current → Q pos current →
    h ∈ m.handlers → h.covers pos → handlerFrame current after = .ok f →
    Q h.target.toInt.toNat f
  join : JoinClosed m Q

variable {m : Method} {Q : Nat → Frame → Prop} {s s' : State} {pos : Nat}
  {before after : Frame}

/-! ## One visit -/

theorem flowOut_spec {targets : List Nat} (hQ : JoinClosed m Q)
    (hs : Holding m Q s) (hafter : Frame.Fits m after)
    (htargets : ∀ t ∈ targets, t < m.instructions.length ∧ Q t after)
    (h : flowOut after s targets = .ok s') :
    Holding m Q s' ∧ Grows m s s' ∧
      ∀ t ∈ targets, Covered Frame.Below s'.frame? t after := by
  induction targets generalizing s with
  | nil =>
      cases h
      exact ⟨hs, Grows.refl m _, by simp⟩
  | cons target targets ih =>
      rw [flowOut] at h
      split at h
      · cases h
      · rename_i s₁ hflow
        obtain ⟨htarget, hQtarget⟩ := htargets target (by simp)
        have hs₁ := hs.flow htarget hafter hflow hQ hQtarget
        have hgrows₁ := hs.grows_of_flow htarget hafter hflow
        have hcovered := hs.covered_of_flow htarget hafter hflow
        obtain ⟨hs', hgrows, hreached⟩ :=
          ih hs₁ (fun t ht => htargets t (by simp [ht])) h
        refine ⟨hs', hgrows₁.trans hgrows, ?_⟩
        intro t ht
        rcases List.mem_cons.mp ht with rfl | ht
        · exact hcovered.rise hgrows.rises
        · exact hreached t ht

/-- The state before the instruction may move up in the course of the visit, but
then the position is pending afterwards. -/
theorem flowToHandlers_spec {handlers : List Handler} (hQ : JoinClosed m Q)
    (hs : Holding m Q s) (hbefore : s.frame? pos = some before)
    (hafter : Frame.Fits m after)
    (hcaught : ∀ h ∈ handlers, h.covers pos → ∀ current f,
      Frame.Fits m current → Q pos current →
      handlerFrame current after = .ok f →
      h.target.toInt.toNat < m.instructions.length ∧ Q h.target.toInt.toNat f)
    (h : flowToHandlers pos after s handlers = .ok s') :
    Holding m Q s' ∧ Grows m s s' ∧
      (pos ∉ s'.pending → ∀ h ∈ handlers, h.covers pos → ∃ f,
        handlerFrame before after = .ok f ∧
          Covered Frame.Below s'.frame? h.target.toInt.toNat f) := by
  induction handlers generalizing s before with
  | nil =>
      cases h
      exact ⟨hs, Grows.refl m _, by simp⟩
  | cons handler handlers ih =>
      have hrest : ∀ h ∈ handlers, h.covers pos → ∀ current f,
          Frame.Fits m current → Q pos current →
          handlerFrame current after = .ok f →
          h.target.toInt.toNat < m.instructions.length ∧
            Q h.target.toInt.toNat f :=
        fun h hmem => hcaught h (by simp [hmem])
      rw [flowToHandlers, hbefore, Option.getD_some] at h
      split_ifs at h with hcovers
      · split at h
        · cases h
        · rename_i f hf
          split at h
          · cases h
          · rename_i s₁ hflow
            have hfits := fits_of_handlerFrame (hs.fits hbefore) hafter hf
            obtain ⟨htarget, hQf⟩ := hcaught handler (by simp) hcovers before f
              (hs.fits hbefore) (hs.holds hbefore) hf
            have hs₁ := hs.flow htarget hfits hflow hQ hQf
            have hgrows₁ := hs.grows_of_flow htarget hfits hflow
            have hcovered := hs.covered_of_flow htarget hfits hflow
            obtain ⟨before₁, hbefore₁, -⟩ := hgrows₁.rises hbefore
            obtain ⟨hs', hgrows, hreached⟩ := ih hs₁ hbefore₁ hrest h
            refine ⟨hs', hgrows₁.trans hgrows, ?_⟩
            intro hpos h' hmem hcovers'
            rcases List.mem_cons.mp hmem with rfl | hmem
            · exact ⟨f, hf, hcovered.rise hgrows.rises⟩
            · -- Only an unmoved frame at the position leaves it settled, so the
              -- remaining handlers have seen the frame that this one has.
              have hsame : before₁ = before :=
                hgrows₁.frame_eq hbefore hbefore₁
                  fun hp => hpos (hgrows.pending hp)
              rw [← hsame]
              exact hreached hpos h' hmem hcovers'
      · obtain ⟨hs', hgrows, hreached⟩ := ih hs hbefore hrest h
        refine ⟨hs', hgrows, ?_⟩
        intro hpos h' hmem hcovers'
        rcases List.mem_cons.mp hmem with rfl | hmem
        · exact absurd hcovers' hcovers
        · exact hreached hpos h' hmem hcovers'

/-- Everything that passing on the result of an instruction does. -/
theorem propagate_eq_ok_iff {insn : Instruction} :
    propagate m s pos insn before = .ok s' ↔
      ∃ after targets s₁, Transfer.step before insn = .ok after ∧
        Flow.successors m.instructions pos insn = .ok targets ∧
        flowOut after s targets = .ok s₁ ∧
        flowToHandlers pos after s₁ m.handlers = .ok s' := by
  rw [propagate]
  cases Transfer.step before insn with
  | error failure => simp
  | ok after =>
      cases Flow.successors m.instructions pos insn with
      | error e => simp
      | ok targets => cases hout : flowOut after s targets <;> simp [hout]

theorem propagate_spec {insn : Instruction} (hQ : Stable m Q)
    (hhandlers : ∀ h ∈ m.handlers,
      h.target.toInt.toNat < m.instructions.length)
    (hinsn : m.instructions[pos]? = some insn) (hs : Holding m Q s)
    (hbefore : s.frame? pos = some before)
    (h : propagate m s pos insn before = .ok s') :
    Holding m Q s' ∧ Grows m s s' ∧
      (pos ∉ s'.pending → ∃ after targets,
        Propagated Frame.Below m s'.frame? pos insn before after targets) := by
  have hfits := hs.fits hbefore
  have hQbefore := hs.holds hbefore
  obtain ⟨after, targets, s₁, hstep, htargets, hout, h⟩ :=
    propagate_eq_ok_iff.mp h
  have hafter := hfits.step hstep
  obtain ⟨hs₁, hgrows₁, hnext⟩ := flowOut_spec hQ.join hs hafter
    (fun t ht => ⟨Flow.lt_of_mem_successors htargets t ht,
      hQ.next hinsn hfits hQbefore hstep htargets ht⟩) hout
  obtain ⟨before₁, hbefore₁, -⟩ := hgrows₁.rises hbefore
  obtain ⟨hs', hgrows, hcaught⟩ := flowToHandlers_spec hQ.join hs₁ hbefore₁
    hafter (fun h hmem hcovers current f hcurrent hQcurrent hf =>
      ⟨hhandlers h hmem, hQ.caught hinsn hfits hQbefore hstep hcurrent
        hQcurrent hmem hcovers hf⟩) h
  refine ⟨hs', hgrows₁.trans hgrows, ?_⟩
  intro hpos
  have hsame : before₁ = before :=
    hgrows₁.frame_eq hbefore hbefore₁ fun hp => hpos (hgrows.pending hp)
  refine ⟨after, targets, hstep, htargets, ?_, ?_⟩
  · intro t ht
    exact (hnext t ht).rise hgrows.rises
  · rw [← hsame]
    exact hcaught hpos

/-- Every position that is not pending satisfies its data-flow equations. -/
def Settled (m : Method) (s : State) : Prop :=
  ∀ pos, pos ∉ s.pending → Closed Frame.Below m s.frame? pos

/-- Equations that hold keep holding while the frames of other positions move
up. -/
theorem Closed.rise {G G' : Nat → Option Frame}
    (hG : Closed Frame.Below m G pos)
    (hrises : ∀ {p f}, G p = some f → Covered Frame.Below G' p f)
    (hsame : G' pos = G pos) : Closed Frame.Below m G' pos := by
  intro insn before hinsn hbefore
  rw [hsame] at hbefore
  obtain ⟨after, targets, hstep, hsucc, hnext, hcaught⟩ :=
    hG insn before hinsn hbefore
  refine ⟨after, targets, hstep, hsucc, ?_, ?_⟩
  · intro t ht
    exact (hnext t ht).rise hrises
  · intro h hmem hcovers
    obtain ⟨f, hf, hcovered⟩ := hcaught h hmem hcovers
    exact ⟨f, hf, hcovered.rise hrises⟩

/-- Everything that a visit does. -/
theorem visit_cases (h : visit m s pos = .ok s') :
    (∃ insn before, m.instructions[pos]? = some insn ∧
      s.frame? pos = some before ∧
      propagate m (s.leave pos) pos insn before = .ok s') ∨
    (s' = s.leave pos ∧ ∀ insn before, m.instructions[pos]? = some insn →
      s.frame? pos ≠ some before) := by
  rw [visit] at h
  split at h
  · rename_i insn before hinsn hbefore
    split at h
    · cases h
    · rename_i s₁ hpropagate
      cases h
      exact Or.inl ⟨insn, before, hinsn, hbefore, hpropagate⟩
  · rename_i hskip
    cases h
    exact Or.inr ⟨rfl, hskip⟩

/-- What the visits keep: the frames fit the method and have a property, the
frame of the first position lies above the entry frame, and positions that are
not pending are settled. -/
structure Invariant (m : Method) (Q : Nat → Frame → Prop) (entry : Frame)
    (s : State) : Prop where
  holding : Holding m Q s
  started : Covered Frame.Below s.frame? 0 entry
  settled : Settled m s

/-- A visit settles its position, unless it makes it pending again, and leaves
the other positions settled. -/
theorem Settled.visit (hs : Settled m s) (hgrows : Grows m (s.leave pos) s')
    (hvisited : pos ∉ s'.pending → Closed Frame.Below m s'.frame? pos) :
    Settled m s' := by
  intro p hp
  by_cases hpos : p = pos
  · subst hpos
    exact hvisited hp
  · have hpending : p ∉ s.pending :=
      State.not_mem_pending_of_leave hpos fun hmem => hp (hgrows.pending hmem)
    exact (hs p hpending).rise hgrows.rises (hgrows.settled hp)

theorem Invariant.visit {entry : Frame} (hQ : Stable m Q)
    (hhandlers : ∀ h ∈ m.handlers,
      h.target.toInt.toNat < m.instructions.length)
    (hs : Invariant m Q entry s) (hpos : pos ∈ s.pending)
    (h : visit m s pos = .ok s') :
    Invariant m Q entry s' ∧ s'.work m < s.work m := by
  have hleave := hs.holding.leave pos
  have hwork := State.work_leave_lt (m := m) hpos
  rcases visit_cases h with
    ⟨insn, before, hinsn, hbefore, hpropagate⟩ | ⟨rfl, hskip⟩
  · obtain ⟨hholding, hgrows, hclosed⟩ :=
      propagate_spec hQ hhandlers hinsn hleave hbefore hpropagate
    have hvisited : pos ∉ s'.pending → Closed Frame.Below m s'.frame? pos := by
      intro hp insn' before' hinsn' hbefore'
      rw [hinsn, Option.some.injEq] at hinsn'
      subst hinsn'
      rw [hgrows.frame_eq hbefore hbefore' hp]
      exact hclosed hp
    refine ⟨⟨hholding, ?_, hs.settled.visit hgrows hvisited⟩, ?_⟩
    · exact hs.started.rise hgrows.rises
    · exact Nat.lt_of_le_of_lt hgrows.work_le hwork
  · refine ⟨⟨hleave, hs.started, ?_⟩, hwork⟩
    refine hs.settled.visit (Grows.refl m _) ?_
    intro _ insn before hinsn hbefore
    exact absurd hbefore (hskip insn before hinsn)

/-! ## The whole run -/

theorem Invariant.of_run {entry : Frame} {visits : Nat} (hQ : Stable m Q)
    (hhandlers : ∀ h ∈ m.handlers,
      h.target.toInt.toNat < m.instructions.length)
    (hs : Invariant m Q entry s) (h : run m visits s = .ok s') :
    Invariant m Q entry s' := by
  induction visits generalizing s with
  | zero =>
      cases h
      exact hs
  | succ visits ih =>
      rw [run] at h
      split at h
      · cases h
        exact hs
      · rename_i pos rest hpending
        split at h
        · cases h
        · rename_i s₁ hvisit
          exact ih (hs.visit hQ hhandlers (by simp [hpending]) hvisit).1 h

theorem Invariant.run {entry : Frame} {visits : Nat} (hQ : Stable m Q)
    (hhandlers : ∀ h ∈ m.handlers,
      h.target.toInt.toNat < m.instructions.length)
    (hs : Invariant m Q entry s) (hwork : s.work m ≤ visits)
    (h : run m visits s = .ok s') :
    Invariant m Q entry s' ∧ s'.pending = [] := by
  induction visits generalizing s with
  | zero =>
      rw [Analysis.run] at h
      cases h
      refine ⟨hs, List.length_eq_zero_iff.mp ?_⟩
      rw [State.work] at hwork
      omega
  | succ visits ih =>
      rw [Analysis.run] at h
      split at h
      · rename_i hpending
        cases h
        exact ⟨hs, hpending⟩
      · rename_i pos rest hpending
        split at h
        · cases h
        · rename_i s₁ hvisit
          have hmem : pos ∈ s.pending := by simp [hpending]
          obtain ⟨hs₁, hless⟩ := hs.visit hQ hhandlers hmem hvisit
          exact ih hs₁ (by omega) h

theorem frame?_start (hne : m.instructions ≠ []) (entry : Frame) (pos : Nat) :
    (start m entry).frame? pos = if pos = 0 then some entry else none := by
  have hlength := List.length_pos_of_ne_nil hne
  rw [State.frame?, start]
  simp only [Array.getElem?_setIfInBounds, Array.size_replicate]
  by_cases hpos : pos = 0
  · simp [hpos, hlength]
  · rw [if_neg (Ne.symm hpos), if_neg hpos, Array.getElem?_replicate]
    split_ifs <;> rfl

theorem Invariant.start {entry : Frame} (hne : m.instructions ≠ [])
    (hentry : Frame.Fits m entry) (hQentry : Q 0 entry) :
    Invariant m Q entry (start m entry) := by
  have hframe := frame?_start hne entry
  refine ⟨⟨?_, ?_, ?_⟩, ?_, ?_⟩
  · rw [Analysis.start, Array.size_setIfInBounds, Array.size_replicate]
  · intro pos f hf
    rw [hframe] at hf
    split_ifs at hf
    cases hf
    exact hentry
  · intro pos f hf
    rw [hframe] at hf
    split_ifs at hf with hpos
    cases hf
    rw [hpos]
    exact hQentry
  · exact ⟨entry, by rw [hframe, if_pos rfl], Frame.below_refl entry⟩
  · intro pos hpos insn before _ hbefore
    have hpos' : pos ≠ 0 := fun h => hpos (by simp [Analysis.start, h])
    rw [hframe, if_neg hpos'] at hbefore
    cases hbefore

/-- The number of visits that the analysis allows is enough. -/
theorem work_start_le {entry : Frame} (hne : m.instructions ≠ []) :
    (start m entry).work m ≤ visitBound m := by
  have hlength := List.length_pos_of_ne_nil hne
  have hsum : ∑ pos ∈ Finset.range m.instructions.length,
      State.slack m ((start m entry).frame? pos) <
        ∑ _pos ∈ Finset.range m.instructions.length, (Frame.height m + 1) := by
    refine Finset.sum_lt_sum ?_ ⟨0, Finset.mem_range.mpr hlength, ?_⟩
    · intro pos _
      rw [frame?_start hne]
      split_ifs
      · rw [State.slack]
        omega
      · exact Nat.le_refl _
    · rw [frame?_start hne, if_pos rfl, State.slack]
      omega
  have hbound : visitBound m =
      m.instructions.length * (Frame.height m + 1) := by
    rw [visitBound, Frame.height, Nat.add_assoc, Nat.add_comm 1]
  rw [Finset.sum_const, Finset.card_range, Nat.nsmul_eq_mul] at hsum
  rw [State.work, hbound]
  change _ + [0].length ≤ _
  rw [List.length_singleton]
  omega

theorem target_lt_of_badHandler? (h : badHandler? m = none) :
    ∀ handler ∈ m.handlers,
      handler.target.toInt.toNat < m.instructions.length := by
  intro handler hmem
  rw [badHandler?, List.find?_eq_none] at h
  have hgood := h handler hmem
  simp only [Bool.or_eq_true, decide_eq_true_eq, not_or, not_lt,
    not_le] at hgood
  omega

/-- Frames that fit the method, of which the first lies above the entry frame,
and which satisfy all data-flow equations. -/
structure Fixpoint (m : Method) (entry : Frame)
    (frames : Array (Option Frame)) : Prop where
  size_eq : frames.size = m.instructions.length
  fits : ∀ {pos f}, Diagnosis.frameAt? frames pos = some f → Frame.Fits m f
  started : Covered Frame.Below (Diagnosis.frameAt? frames) 0 entry
  closed : ∀ pos, Closed Frame.Below m (Diagnosis.frameAt? frames) pos

/-- Where nothing is pending, the frames satisfy all data-flow equations. -/
theorem Invariant.fixpoint {entry : Frame} (hs : Invariant m Q entry s)
    (hpending : s.pending = []) : Fixpoint m entry s.frames where
  size_eq := hs.holding.size_eq
  fits := hs.holding.fits
  started := hs.started
  closed pos := hs.settled pos (by simp [hpending])

theorem stable_true (m : Method) : Stable m fun _ _ => True where
  next _ _ _ _ _ _ := trivial
  caught _ _ _ _ _ _ _ _ _ := trivial
  join _ _ _ _ _ _ _ _ := trivial

/-- The analysis of a method gets as far as its first visit, with the given
entry frame. -/
structure Enters (assumed : Nullability) (m : Method) (entry : Frame) :
    Prop where
  nonempty : m.instructions ≠ []
  handlers : badHandler? m = none
  entry_eq : entryFrame assumed m = .ok entry

namespace Enters

variable {assumed : Nullability} {entry : Frame}

theorem target_lt (h : Enters assumed m entry) :
    ∀ handler ∈ m.handlers,
      handler.target.toInt.toNat < m.instructions.length :=
  target_lt_of_badHandler? h.handlers

theorem fits (h : Enters assumed m entry) : Frame.Fits m entry :=
  (fits_of_entryFrame h.entry_eq).1

theorem invariant_start (h : Enters assumed m entry) (hQentry : Q 0 entry) :
    Invariant m Q entry (start m entry) :=
  Invariant.start h.nonempty h.fits hQentry

/-- What the analysis returns is what its visits lead to. -/
theorem analyze_eq (h : Enters assumed m entry) :
    analyze assumed m =
      (run m (visitBound m) (start m entry)).map State.frames := by
  rw [analyze, if_neg (by simpa using h.nonempty), h.handlers]
  dsimp only
  rw [h.entry_eq]
  dsimp only
  cases run m (visitBound m) (start m entry) <;> rfl

end Enters

/-- The entry frame of a method, or the failure with which its analysis ends
before the first visit. -/
def enter (assumed : Nullability) (m : Method) :
    Except (Failure Malformed) Frame :=
  match badHandler? m with
  | some h => .error (.error ⟨m.signature, none, .handlerRange h⟩)
  | none =>
    (entryFrame assumed m).mapError (Failure.map (⟨m.signature, none, ·⟩))

theorem enter_eq_ok_iff {assumed : Nullability} {entry : Frame} :
    enter assumed m = .ok entry ↔
      badHandler? m = none ∧ entryFrame assumed m = .ok entry := by
  rw [enter]
  cases badHandler? m with
  | some h => simp
  | none => cases entryFrame assumed m <;> simp [Except.mapError]

theorem enters_of_enter {assumed : Nullability} {entry : Frame}
    (hne : m.instructions ≠ []) (h : enter assumed m = .ok entry) :
    Enters assumed m entry :=
  have hentry := enter_eq_ok_iff.mp h
  ⟨hne, hentry.1, hentry.2⟩

/-- The analysis of a method with instructions makes its visits from the entry
frame. -/
theorem analyze_eq_bind (assumed : Nullability) (hne : m.instructions ≠ []) :
    analyze assumed m = (enter assumed m).bind fun entry =>
      (run m (visitBound m) (start m entry)).map State.frames := by
  rw [analyze, if_neg (by simpa using hne), enter]
  cases badHandler? m with
  | some h => rfl
  | none =>
      cases entryFrame assumed m with
      | error failure => rfl
      | ok entry =>
          change _ = (run m (visitBound m) (start m entry)).map State.frames
          dsimp only
          cases run m (visitBound m) (start m entry) <;> rfl

theorem enters_of_analyze {assumed : Nullability}
    {frames : Array (Option Frame)} (hne : m.instructions ≠ [])
    (h : analyze assumed m = .ok frames) :
    ∃ entry s, Enters assumed m entry ∧
      run m (visitBound m) (start m entry) = .ok s ∧ s.frames = frames := by
  rw [analyze, if_neg (by simpa using hne)] at h
  split at h
  · cases h
  · rename_i hhandlers
    split at h
    · cases h
    · rename_i entry hentry
      split at h
      · cases h
      · rename_i s hrun
        cases h
        exact ⟨entry, s, ⟨hne, hhandlers, hentry⟩, hrun, rfl⟩

/-- What the analysis returns satisfies the data-flow equations, and has every
stable property of the entry frame. -/
theorem fixpoint_of_analyze {assumed : Nullability}
    {frames : Array (Option Frame)} (hne : m.instructions ≠ [])
    (h : analyze assumed m = .ok frames) :
    ∃ entry, entryFrame assumed m = .ok entry ∧ Fixpoint m entry frames ∧
      ∀ Q, Stable m Q → Q 0 entry → ∀ pos f,
        Diagnosis.frameAt? frames pos = some f → Q pos f := by
  obtain ⟨entry, s, henters, hrun, rfl⟩ := enters_of_analyze hne h
  -- The run does not depend on the property, so the invariant may be used once
  -- for the equations and once for each property that is asked for.
  have hresult : ∀ Q, Stable m Q → Q 0 entry →
      Invariant m Q entry s ∧ s.pending = [] := by
    intro Q hQ hQentry
    exact (henters.invariant_start hQentry).run hQ henters.target_lt
      (work_start_le hne) hrun
  obtain ⟨hs, hpending⟩ := hresult _ (stable_true m) trivial
  refine ⟨entry, henters.entry_eq, hs.fixpoint hpending, ?_⟩
  intro Q hQ hQentry pos f hf
  exact (hresult Q hQ hQentry).1.holding.holds hf

/-! ## An example -/

/-- A method that follows the links of a list until it throws, and then reads a
local variable that is only set if at least one link has been followed. -/
def followLinks : Method where
  owner := text "List"
  name := text "follow"
  desc := text "(LNode;)LNode;"
  isStatic := true
  maxStack := 1
  maxLocals := 2
  instructions := [
    .var ⟨25⟩ 0, -- aload 0
    .field .getfield (text "Node") (text "next") (text "LNode;"),
    .var ⟨58⟩ 1, -- astore 1
    .var ⟨25⟩ 1, -- aload 1
    .var ⟨58⟩ 0, -- astore 0
    .jump .goto 0,
    .plain ⟨87⟩, -- pop
    .var ⟨25⟩ 1, -- aload 1
    .field .getfield (text "Node") (text "next") (text "LNode;"),
    .plain ⟨176⟩] -- areturn
  handlers := [⟨0, 3, 6, []⟩]
  params := [.nonNull]

/-- The frames that the analysis finds for `followLinks`. -/
def followLinksFrames : Array (Option Frame) :=
  let frame (stack : List Value) : Option Frame :=
    some ⟨[.nullable, .nullable], stack, stack.length, 1⟩
  #[frame [], frame [.nullable], frame [.nullable], frame [],
    frame [.nullable], frame [], frame [.nonNull], frame [],
    frame [.nullable], frame [.nullable]]

theorem analyze_followLinks :
    analyze .unknown followLinks = .ok followLinksFrames := by
  decide +kernel

end Analysis
end Nullness
