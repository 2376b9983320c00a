import Nullness.Proofs.LeastSolution

/-!
# Visiting in any order

The analysis visits the lowest pending position first.  A rule may pick any
other pending position instead, and may look at everything that has happened so
far.

Under every rule the visits keep the same invariants and come to an end.  A
position is visited once when it is reached, and again only after its frame has
moved up; the dues of a position count the visits that this still allows.
-/

namespace Nullness
namespace Analysis

open State (Holding)

/-! ## The merges of a visit -/

namespace State

variable {m : Method} {s s' : State} {pos : Nat} {f after : Frame}
  {Q : Nat → Frame → Prop}

/-- All frames of a state fit the method. -/
abbrev Fitting (m : Method) (s : State) : Prop := Holding m (fun _ _ => True) s

theorem Holding.fitting (hs : Holding m Q s) : Fitting m s :=
  ⟨hs.size_eq, hs.fits, fun _ => trivial⟩

theorem Fitting.flow (hs : Fitting m s) (hpos : pos < m.instructions.length)
    (hf : Frame.Fits m f) (h : s.flow pos f = .ok s') : Fitting m s' :=
  Holding.flow hs hpos hf h (stable_true m).join trivial

/-- A sequence of merges of frames that fit a method. -/
inductive Merges (m : Method) : State → State → Prop
  | refl (s : State) : Merges m s s
  | flow {s s₁ s₂ : State} {target : Nat} {f : Frame}
      (htarget : target < m.instructions.length) (hf : Frame.Fits m f)
      (hflow : s.flow target f = .ok s₁) (hrest : Merges m s₁ s₂) :
      Merges m s s₂

theorem Merges.trans {s'' : State} (h : Merges m s s') (h' : Merges m s' s'') :
    Merges m s s'' := by
  induction h with
  | refl => exact h'
  | flow htarget hf hflow _ ih => exact .flow htarget hf hflow (ih h')

theorem Merges.fitting (h : Merges m s s') (hs : Fitting m s) :
    Fitting m s' := by
  induction h with
  | refl => exact hs
  | flow htarget hf hflow _ ih => exact ih (hs.flow htarget hf hflow)

theorem merges_of_flowOut {targets : List Nat} (hafter : Frame.Fits m after)
    (htargets : ∀ t ∈ targets, t < m.instructions.length)
    (h : flowOut after s targets = .ok s') : Merges m s s' := by
  induction targets generalizing s with
  | nil =>
      cases h
      exact .refl _
  | cons target targets ih =>
      rw [flowOut] at h
      split at h
      · cases h
      · rename_i s₁ hflow
        have hrest : Merges m s₁ s' := by
          apply ih
          · intro t ht
            exact htargets t (by simp [ht])
          · exact h
        exact .flow (htargets target (by simp)) hafter hflow hrest

/-- The frame that a handler is entered with before the instruction has changed
anything fits the method. -/
theorem Fitting.fits_getD (hs : Fitting m s) (hafter : Frame.Fits m after) :
    Frame.Fits m ((s.frame? pos).getD after) := by
  cases hframe : s.frame? pos with
  | none => exact hafter
  | some f => exact hs.fits hframe

theorem merges_of_flowToHandlers {handlers : List Handler} (hs : Fitting m s)
    (hafter : Frame.Fits m after)
    (htargets : ∀ h ∈ handlers, h.target.toInt.toNat < m.instructions.length)
    (h : flowToHandlers pos after s handlers = .ok s') : Merges m s s' := by
  induction handlers generalizing s with
  | nil =>
      cases h
      exact .refl _
  | cons handler handlers ih =>
      have htarget := htargets handler (by simp)
      have hrest : ∀ h ∈ handlers,
          h.target.toInt.toNat < m.instructions.length := by
        intro h hmem
        exact htargets h (by simp [hmem])
      rw [flowToHandlers] at h
      split_ifs at h with hcovers
      · split at h
        · cases h
        · rename_i f hf
          have hfits := fits_of_handlerFrame (hs.fits_getD hafter) hafter hf
          split at h
          · cases h
          · rename_i s₁ hflow
            exact .flow htarget hfits hflow
              (ih (hs.flow htarget hfits hflow) hrest h)
      · exact ih hs hrest h

end State

variable {m : Method} {s s' : State} {pos : Nat} {entry : Frame}
  {assumed : Nullability} {Q : Nat → Frame → Prop}

open State (Fitting Merges)

/-- A visit takes its position from the pending ones and then merges. -/
theorem merges_of_visit (hs : Fitting m s)
    (hhandlers : ∀ h ∈ m.handlers,
      h.target.toInt.toNat < m.instructions.length)
    (h : visit m s pos = .ok s') : Merges m (s.leave pos) s' := by
  rcases visit_cases h with
    ⟨insn, before, -, hbefore, hpropagate⟩ | ⟨rfl, -⟩
  · obtain ⟨after, targets, s₁, hstep, htargets, hout, hcaught⟩ :=
      propagate_eq_ok_iff.mp hpropagate
    have hafter : Frame.Fits m after := (hs.fits hbefore).step hstep
    have hnext : Merges m (s.leave pos) s₁ :=
      State.merges_of_flowOut hafter (Flow.lt_of_mem_successors htargets) hout
    have hs₁ : Fitting m s₁ := hnext.fitting (Holding.leave hs pos)
    exact hnext.trans
      (State.merges_of_flowToHandlers hs₁ hafter hhandlers hcaught)
  · exact .refl _

/-! ## What merges do to the pending positions -/

namespace State

variable {q : Nat} {f : Frame}

theorem count_insertPosition_le (pos q : Nat) (positions : List Nat) :
    (insertPosition pos positions).count q ≤
      positions.count q + [pos].count q := by
  induction positions with
  | nil => simp [insertPosition]
  | cons r rest ih =>
      rw [insertPosition]
      split_ifs
      · rw [← List.singleton_append, List.count_append, Nat.add_comm]
      · exact Nat.le_add_right _ _
      · rw [List.count_cons, List.count_cons]
        omega

/-- How many more times a position can be visited: once if it is pending, and
once for each further change of its frame. -/
def dues (m : Method) (s : State) (pos : Nat) : Nat :=
  slack m (s.frame? pos) + s.pending.count pos

theorem Fitting.dues_le_of_flow (hs : Fitting m s)
    (hpos : pos < m.instructions.length) (hf : Frame.Fits m f)
    (h : s.flow pos f = .ok s') (q : Nat) : s'.dues m q ≤ s.dues m q := by
  obtain ⟨hsizes, rfl⟩ := flow_eq_ok h
  split_ifs with hsame
  · exact Nat.le_refl _
  · have hlt : slack m (some (s.absorb pos f)) < slack m (s.frame? pos) :=
      hs.slack_absorb_lt hf hsizes hsame
    have hcount : (s.update pos (s.absorb pos f)).pending.count q ≤
        s.pending.count q + [pos].count q :=
      count_insertPosition_le pos q s.pending
    rw [dues, dues, frame?_update (hs.size_eq ▸ hpos)]
    by_cases hq : q = pos
    · subst hq
      rw [List.count_singleton_self] at hcount
      rw [if_pos rfl]
      omega
    · have hother : [pos].count q = 0 := by simp [Ne.symm hq]
      rw [if_neg hq]
      omega

theorem Merges.dues_le (h : Merges m s s') (hs : Fitting m s) (q : Nat) :
    s'.dues m q ≤ s.dues m q := by
  induction h with
  | refl => exact Nat.le_refl _
  | flow htarget hf hflow _ ih =>
      have hfirst := hs.dues_le_of_flow htarget hf hflow q
      have hrest := ih (hs.flow htarget hf hflow)
      exact Nat.le_trans hrest hfirst

theorem dues_leave (hpos : pos ∈ s.pending) (q : Nat) :
    (s.leave pos).dues m q + [pos].count q = s.dues m q := by
  have hcount : (s.leave pos).pending.count q + [pos].count q =
      s.pending.count q := by
    have hperm : (pos :: s.pending.erase pos).Perm s.pending :=
      (List.perm_cons_erase hpos).symm
    have hsplit := hperm.count_eq q
    rw [List.count_cons] at hsplit
    simpa [leave, List.count_cons] using hsplit
  rw [dues, dues, frame?_leave, Nat.add_assoc, hcount]

/-- The pending positions are in ascending order. -/
def Ascending (s : State) : Prop := s.pending.Pairwise (· < ·)

theorem pairwise_insertPosition {positions : List Nat}
    (h : positions.Pairwise (· < ·)) (pos : Nat) :
    (insertPosition pos positions).Pairwise (· < ·) := by
  induction positions with
  | nil => simp [insertPosition]
  | cons r rest ih =>
      obtain ⟨hhead, htail⟩ := List.pairwise_cons.mp h
      rw [insertPosition]
      split_ifs with hlt heq
      · refine List.pairwise_cons.mpr ⟨?_, h⟩
        intro q hq
        rcases List.mem_cons.mp hq with rfl | hq
        · exact hlt
        · exact hlt.trans (hhead q hq)
      · exact h
      · refine List.pairwise_cons.mpr ⟨?_, ih htail⟩
        intro q hq
        rcases mem_insertPosition.mp hq with rfl | hq
        · omega
        · exact hhead q hq

theorem Ascending.flow (hs : s.Ascending) (h : s.flow pos f = .ok s') :
    s'.Ascending := by
  obtain ⟨-, rfl⟩ := flow_eq_ok h
  split_ifs
  · exact hs
  · exact pairwise_insertPosition hs pos

theorem Merges.ascending (h : Merges m s s') (hs : s.Ascending) :
    s'.Ascending := by
  induction h with
  | refl => exact hs
  | flow _ _ hflow _ ih => exact ih (hs.flow hflow)

theorem Ascending.leave (hs : s.Ascending) (pos : Nat) :
    (s.leave pos).Ascending :=
  List.Pairwise.sublist List.erase_sublist hs

theorem Ascending.le_of_mem {rest : List Nat} (hs : s.Ascending)
    (hpending : s.pending = pos :: rest) (hq : q ∈ s.pending) : pos ≤ q := by
  rw [Ascending, hpending] at hs
  rw [hpending] at hq
  rcases List.mem_cons.mp hq with rfl | hq
  · exact Nat.le_refl _
  · exact Nat.le_of_lt ((List.pairwise_cons.mp hs).1 q hq)

end State

/-! ## Rules -/

/-- A rule for the position to visit next.  It may look at the state and at the
positions visited before, the last one first. -/
structure Rule where
  pick : (past : List Nat) → State → Nat
  pick_mem : ∀ past s, s.pending ≠ [] → pick past s ∈ s.pending

namespace Rule

/-- The lowest pending position first. -/
def lowest : Rule where
  pick _ s := s.pending.min?.getD 0
  pick_mem := by
    intro _ s hpending
    obtain ⟨p, hp⟩ := Option.isSome_iff_exists.mp
      (List.isSome_min?_of_ne_nil hpending)
    rw [hp]
    exact List.min?_mem hp

/-- The highest pending position first. -/
def highest : Rule where
  pick _ s := s.pending.max?.getD 0
  pick_mem := by
    intro _ s hpending
    obtain ⟨p, hp⟩ := Option.isSome_iff_exists.mp
      (List.isSome_max?_of_ne_nil hpending)
    rw [hp]
    exact List.max?_mem hp

theorem pick_lowest_of_ascending {rest past : List Nat} (hs : s.Ascending)
    (hpending : s.pending = pos :: rest) : lowest.pick past s = pos := by
  have hmin : s.pending.min? = some pos :=
    List.min?_eq_some_iff.mpr
      ⟨by simp [hpending], fun _ hq => hs.le_of_mem hpending hq⟩
  change s.pending.min?.getD 0 = pos
  rw [hmin]
  rfl

end Rule

/-- Visits pending positions as a rule picks them, until none is pending.  There
is no result if the visits are used up before. -/
def runBy (rule : Rule) (m : Method) : (visits : Nat) → (past : List Nat) →
    State → Option (Except (Failure Malformed) State)
  | visits, past, s =>
    if s.pending = [] then some (.ok s)
    else match visits with
      | 0 => none
      | visits + 1 =>
        match visit m s (rule.pick past s) with
        | .error failure => some (.error failure)
        | .ok s' => runBy rule m visits (rule.pick past s :: past) s'

theorem runBy_of_pending_eq_nil (rule : Rule) (m : Method) (visits : Nat)
    (past : List Nat) (h : s.pending = []) :
    runBy rule m visits past s = some (.ok s) := by
  cases visits <;> rw [runBy, if_pos h]

/-- The analysis of a method with another rule for the position to visit
next. -/
def analyzeBy (rule : Rule) (assumed : Nullability) (m : Method) :
    Option (Except (Failure Malformed) (Array (Option Frame))) :=
  if m.instructions.isEmpty then some (.ok #[])
  else match badHandler? m with
    | some h => some (.error (.error ⟨m.signature, none, .handlerRange h⟩))
    | none =>
      match entryFrame assumed m with
      | .error failure =>
        some (.error (failure.map (⟨m.signature, none, ·⟩)))
      | .ok entry =>
        (runBy rule m (visitBound m) [] (start m entry)).map
          (·.map State.frames)

/-! ## The states that a rule leads to -/

/-- The states that the visits lead to, with the positions visited so far, the
last one first. -/
inductive Reached (rule : Rule) (m : Method) (entry : Frame) :
    List Nat → State → Prop
  | start : Reached rule m entry [] (start m entry)
  | visit {past : List Nat} {s s' : State} (h : Reached rule m entry past s)
      (hpending : s.pending ≠ [])
      (hvisit : visit m s (rule.pick past s) = .ok s') :
      Reached rule m entry (rule.pick past s :: past) s'

/-- How the visits end: nothing is pending, or a visit fails. -/
inductive Ends (rule : Rule) (m : Method) (entry : Frame) :
    Except (Failure Malformed) State → Prop
  | settled {past : List Nat} {s : State} (h : Reached rule m entry past s)
      (hpending : s.pending = []) : Ends rule m entry (.ok s)
  | failed {past : List Nat} {s : State} {failure : Failure Malformed}
      (h : Reached rule m entry past s) (hpending : s.pending ≠ [])
      (hvisit : visit m s (rule.pick past s) = .error failure) :
      Ends rule m entry (.error failure)

namespace Reached

variable {rule : Rule} {past : List Nat}

theorem invariant (h : Reached rule m entry past s)
    (henters : Enters assumed m entry) (hQ : Stable m Q) (hQentry : Q 0 entry) :
    Invariant m Q entry s := by
  induction h with
  | start => exact henters.invariant_start hQentry
  | visit _ hpending hvisit ih =>
      exact (ih.visit hQ henters.target_lt (rule.pick_mem _ _ hpending)
        hvisit).1

theorem fitting (h : Reached rule m entry past s)
    (henters : Enters assumed m entry) : Fitting m s :=
  (h.invariant henters (stable_true m) trivial).holding

theorem ascending (h : Reached rule m entry past s)
    (henters : Enters assumed m entry) : s.Ascending := by
  induction h with
  | start => exact List.pairwise_singleton _ _
  | visit hreached _ hvisit ih =>
      have hmerges := merges_of_visit (hreached.fitting henters)
        henters.target_lt hvisit
      exact hmerges.ascending (ih.leave _)

/-- Visits and dues of a position are never more than the length of the longest
chain of frames. -/
theorem count_add_dues_le (h : Reached rule m entry past s)
    (henters : Enters assumed m entry) (q : Nat) :
    past.count q + s.dues m q ≤ Frame.height m + 1 := by
  induction h with
  | start =>
      rw [State.dues, frame?_start henters.nonempty]
      change 0 + (_ + [0].count q) ≤ _
      by_cases hq : q = 0
      · subst hq
        rw [if_pos rfl, State.slack, List.count_singleton_self]
        omega
      · rw [if_neg hq, State.slack, List.count_singleton]
        simp [Ne.symm hq]
  | @visit past s s' hreached hpending hvisit ih =>
      have hs := hreached.fitting henters
      have hmerges := merges_of_visit hs henters.target_lt hvisit
      have hafter : s'.dues m q ≤ (s.leave (rule.pick past s)).dues m q :=
        hmerges.dues_le (Holding.leave hs _) q
      have htaken := State.dues_leave (m := m)
        (rule.pick_mem past s hpending) q
      have hcount : (rule.pick past s :: past).count q =
          past.count q + [rule.pick past s].count q := by
        simp [List.count_cons]
      omega

theorem length_add_work_le (h : Reached rule m entry past s)
    (henters : Enters assumed m entry) :
    past.length + s.work m ≤ visitBound m := by
  induction h with
  | start =>
      have hstart : (Analysis.start m entry).work m ≤ visitBound m :=
        work_start_le henters.nonempty
      simpa using hstart
  | visit hreached hpending hvisit ih =>
      have hinvariant := hreached.invariant henters (stable_true m) trivial
      have hless := (hinvariant.visit (stable_true m) henters.target_lt
        (rule.pick_mem _ _ hpending) hvisit).2
      rw [List.length_cons]
      omega

/-- A state with something pending still has visits left. -/
theorem length_lt (h : Reached rule m entry past s)
    (henters : Enters assumed m entry) (hpending : s.pending ≠ []) :
    past.length < visitBound m := by
  have hwork := h.length_add_work_le henters
  have hpos := List.length_pos_of_ne_nil hpending
  rw [State.work] at hwork
  omega

/-- From every state that is reached, the remaining visits are enough. -/
theorem exists_runBy {visits : Nat} (h : Reached rule m entry past s)
    (henters : Enters assumed m entry)
    (hvisits : visitBound m ≤ past.length + visits) :
    ∃ result, runBy rule m visits past s = some result ∧
      Ends rule m entry result := by
  induction visits generalizing past s with
  | zero =>
      have hpending : s.pending = [] := by
        by_contra hpending
        have hlt := h.length_lt henters hpending
        omega
      exact ⟨.ok s, runBy_of_pending_eq_nil rule m 0 past hpending,
        .settled h hpending⟩
  | succ visits ih =>
      rw [runBy]
      by_cases hpending : s.pending = []
      · exact ⟨.ok s, if_pos hpending, .settled h hpending⟩
      · rw [if_neg hpending]
        cases hvisit : Analysis.visit m s (rule.pick past s) with
        | error failure =>
            exact ⟨.error failure, rfl, .failed h hpending hvisit⟩
        | ok s' =>
            apply ih (h.visit hpending hvisit)
            rw [List.length_cons]
            omega

end Reached

/-- The visits that the analysis allows itself are enough under every rule. -/
theorem Enters.exists_runBy (henters : Enters assumed m entry) (rule : Rule) :
    ∃ result, runBy rule m (visitBound m) [] (start m entry) = some result ∧
      Ends rule m entry result :=
  Reached.start.exists_runBy henters (by simp)

/-- Visiting the lowest position first is what the analysis does. -/
theorem runBy_lowest {past : List Nat} {visits : Nat}
    {result : Except (Failure Malformed) State}
    (h : Reached .lowest m entry past s) (henters : Enters assumed m entry)
    (hrun : runBy .lowest m visits past s = some result) :
    run m visits s = result := by
  induction visits generalizing past s with
  | zero =>
      rw [runBy] at hrun
      split_ifs at hrun
      cases hrun
      rw [run]
  | succ visits ih =>
      rw [runBy] at hrun
      rw [run]
      cases hpending : s.pending with
      | nil =>
          rw [if_pos hpending] at hrun
          cases hrun
          rfl
      | cons pos rest =>
          have hne : s.pending ≠ [] := by simp [hpending]
          have hpick : Rule.lowest.pick past s = pos :=
            Rule.pick_lowest_of_ascending (h.ascending henters) hpending
          rw [if_neg hne] at hrun
          dsimp only at hrun ⊢
          cases hvisit : visit m s pos with
          | error failure =>
              rw [hpick, hvisit] at hrun
              cases hrun
              rfl
          | ok s' =>
              have hreached := h.visit hne (hpick ▸ hvisit)
              rw [hpick, hvisit] at hrun
              rw [hpick] at hreached
              exact ih hreached hrun

theorem runBy_mono {rule : Rule} {past : List Nat} {visits visits' : Nat}
    {result : Except (Failure Malformed) State} (hle : visits ≤ visits')
    (h : runBy rule m visits past s = some result) :
    runBy rule m visits' past s = some result := by
  induction visits generalizing visits' past s with
  | zero =>
      rw [runBy] at h
      split_ifs at h with hpending
      rw [runBy_of_pending_eq_nil rule m visits' past hpending]
      exact h
  | succ visits ih =>
      obtain ⟨more, rfl⟩ : ∃ more, visits' = more + 1 :=
        Nat.exists_eq_add_one_of_ne_zero (by omega)
      rw [runBy] at h ⊢
      split_ifs at h ⊢ with hpending
      · exact h
      · cases hvisit : visit m s (rule.pick past s) with
        | error failure => simpa only [hvisit] using h
        | ok s' =>
            simp only [hvisit] at h ⊢
            exact ih (by omega) h

/-- How many visits the analysis is allowed makes no difference, once they are
enough. -/
theorem exists_ends_run (henters : Enters assumed m entry) :
    ∃ result, Ends .lowest m entry result ∧
      ∀ visits, visitBound m ≤ visits →
        run m visits (start m entry) = result := by
  obtain ⟨result, hrun, hends⟩ := henters.exists_runBy .lowest
  refine ⟨result, hends, ?_⟩
  intro visits hvisits
  exact runBy_lowest .start henters (runBy_mono hvisits hrun)

/-- A rule has a say only once the analysis comes to its first visit. -/
theorem analyzeBy_cases (rule : Rule) (assumed : Nullability) (m : Method) :
    analyzeBy rule assumed m = some (analyze assumed m) ∨
      ∃ entry, Enters assumed m entry ∧ analyzeBy rule assumed m =
        (runBy rule m (visitBound m) [] (start m entry)).map
          (·.map State.frames) := by
  rw [analyzeBy, analyze]
  by_cases hempty : m.instructions.isEmpty
  · left
    rw [if_pos hempty, if_pos hempty]
  · rw [if_neg hempty, if_neg hempty]
    cases hhandlers : badHandler? m with
    | some h => exact Or.inl rfl
    | none =>
        cases hentry : entryFrame assumed m with
        | error failure => exact Or.inl rfl
        | ok entry =>
            right
            exact ⟨entry, ⟨by simpa using hempty, hhandlers, hentry⟩, rfl⟩

/-- The analysis is the one that visits the lowest position first. -/
theorem analyzeBy_lowest (assumed : Nullability) (m : Method) :
    analyzeBy .lowest assumed m = some (analyze assumed m) := by
  rcases analyzeBy_cases .lowest assumed m with h | ⟨entry, henters, h⟩
  · exact h
  · obtain ⟨result, hrun, -⟩ := henters.exists_runBy .lowest
    rw [h, hrun, henters.analyze_eq, runBy_lowest .start henters hrun]
    rfl

end Analysis
end Nullness
