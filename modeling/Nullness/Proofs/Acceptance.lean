import Nullness.Proofs.Schedule
import Nullness.Proofs.Shape

/-!
# Nullability never decides acceptance

The analyses of two methods that differ only in what is declared about their
parameters need not make the same visits: a merge that changes no more than a
nullability makes its position pending, and then the instructions that follow
are visited once more.  But a visit does the same to the shapes of the frames in
both analyses, and a visit that only one of them makes changes no shape in
either.

The second fact is where the two analyses support each other.  A position that
is pending in one of them only is settled in the other one.  There, the visit
would merge frames into higher ones and change nothing at all.
-/

namespace Nullness
namespace Analysis

/-- The shapes of frames, position by position. -/
def shapes (frames : Array (Option Frame)) : Array (Option Frame.Shape) :=
  frames.map (Option.map Frame.shape)

theorem map_shape_frameAt? (frames : Array (Option Frame)) (pos : Nat) :
    (Diagnosis.frameAt? frames pos).map Frame.shape =
      ((shapes frames)[pos]?).join := by
  rw [Diagnosis.frameAt?, shapes, Array.getElem?_map]
  cases frames[pos]? with
  | none => rfl
  | some frame => rfl

namespace State

/-- The shapes of the frames of a state. -/
def shapes (s : State) : Array (Option Frame.Shape) := Analysis.shapes s.frames

theorem map_shape_frame?_eq (s : State) (pos : Nat) :
    (s.frame? pos).map Frame.shape = (s.shapes[pos]?).join :=
  map_shape_frameAt? s.frames pos

theorem shapes_update (s : State) (pos : Nat) (f : Frame) :
    (s.update pos f).shapes = s.shapes.setIfInBounds pos (some f.shape) := by
  rw [shapes, update, Analysis.shapes, Array.map_setIfInBounds]
  rfl

/-- A frame that is already there can be set again. -/
theorem shapes_eq_of_frame? {s : State} {pos : Nat} {f : Frame}
    (h : s.frame? pos = some f) :
    s.shapes.setIfInBounds pos (some f.shape) = s.shapes := by
  have hshape : (s.shapes[pos]?).join = some f.shape := by
    rw [← map_shape_frame?_eq, h]
    rfl
  refine Array.ext_getElem? fun p => ?_
  rw [Array.getElem?_setIfInBounds]
  split_ifs with hp hbound
  · rw [← hp]
    exact (Option.join_eq_some_iff.mp hshape).symm
  · rw [← hp, Array.getElem?_eq_none (by omega)]
  · rfl

end State

variable {m : Method} {s t : State} {pos : Nat}
  {f g after after' before before' : Frame}

/-! ## A visit acts on shapes -/

section Shapes

variable (h : s.shapes = t.shapes)

include h

theorem map_shape_frame? (pos : Nat) :
    (s.frame? pos).map Frame.shape = (t.frame? pos).map Frame.shape := by
  rw [State.map_shape_frame?_eq, State.map_shape_frame?_eq, h]

theorem map_shapes_flow (hfg : f.shape = g.shape) (pos : Nat) :
    (s.flow pos f).map State.shapes = (t.flow pos g).map State.shapes := by
  have hframe := map_shape_frame? h pos
  rw [State.flow, State.flow]
  cases hs : s.frame? pos with
  | none =>
      have ht : t.frame? pos = none := by simpa [hs, eq_comm] using hframe
      rw [ht]
      simp [Except.map, State.shapes_update, h, hfg]
  | some u =>
      obtain ⟨w, ht, huw⟩ : ∃ w, t.frame? pos = some w ∧ w.shape = u.shape := by
        simpa [hs, eq_comm] using hframe
      rw [ht]
      dsimp only
      -- Whether a merge is a change plays no part: one that is not leaves the
      -- frame with the shape that it has.
      have hkept : ∀ {s : State} {u f joined : Frame} {changed : Bool},
          s.frame? pos = some u → u.merge f = .ok (joined, changed) →
          (if changed then s.update pos joined else s).shapes =
            s.shapes.setIfInBounds pos (some joined.shape) := by
        intro s u f joined changed hframe hmerge
        obtain ⟨-, -, -, hchanged⟩ := Frame.merge_eq_ok_iff.mp hmerge
        split_ifs with hif
        · exact State.shapes_update s pos joined
        · have hsame : joined = u := by simpa [hif] using hchanged.symm
          rw [hsame, State.shapes_eq_of_frame? hframe]
      rcases map_eq_map_cases (Frame.map_shape_merge huw.symm hfg) with
        ⟨⟨joined, changed⟩, ⟨joined', changed'⟩, hok, hok', hshape⟩ |
          ⟨e, herror, herror'⟩
      · rw [hok, hok']
        refine congrArg Except.ok ?_
        rw [hkept hs hok, hkept ht hok', h]
        exact congrArg _ (congrArg some hshape)
      · rw [herror, herror']

theorem map_shapes_flowOut (hafter : after.shape = after'.shape)
    (targets : List Nat) :
    (flowOut after s targets).map State.shapes =
      (flowOut after' t targets).map State.shapes := by
  induction targets generalizing s t with
  | nil => exact congrArg Except.ok h
  | cons target targets ih =>
      rw [flowOut, flowOut]
      rcases map_eq_map_cases (map_shapes_flow h hafter target) with
        ⟨s₁, t₁, hok, hok', h₁⟩ | ⟨e, herror, herror'⟩
      · rw [hok, hok']
        exact ih h₁
      · rw [herror, herror']

theorem map_shapes_flowToHandlers (hafter : after.shape = after'.shape)
    (handlers : List Handler) :
    (flowToHandlers pos after s handlers).map State.shapes =
      (flowToHandlers pos after' t handlers).map State.shapes := by
  induction handlers generalizing s t with
  | nil => exact congrArg Except.ok h
  | cons handler handlers ih =>
      have hbefore : ((s.frame? pos).getD after).shape =
          ((t.frame? pos).getD after').shape := by
        rw [← Option.getD_map Frame.shape, ← Option.getD_map Frame.shape,
          map_shape_frame? h, hafter]
      rw [flowToHandlers, flowToHandlers]
      split_ifs
      · rcases map_eq_map_cases (map_shape_handlerFrame hbefore hafter) with
          ⟨f, g, hok, hok', hfg⟩ | ⟨failure, herror, herror'⟩
        · rw [hok, hok']
          dsimp only
          rcases map_eq_map_cases
              (map_shapes_flow h hfg handler.target.toInt.toNat) with
            ⟨s₁, t₁, hflow, hflow', h₁⟩ | ⟨e, hflow, hflow'⟩
          · rw [hflow, hflow']
            exact ih h₁
          · rw [hflow, hflow']
        · rw [herror, herror']
      · exact ih h

theorem map_shapes_propagate (hbefore : before.shape = before'.shape)
    (m : Method) (pos : Nat) (insn : Instruction) :
    (propagate m s pos insn before).map State.shapes =
      (propagate m t pos insn before').map State.shapes := by
  rw [propagate, propagate]
  rcases map_eq_map_cases (Transfer.map_shape_step hbefore insn) with
    ⟨after, after', hok, hok', hafter⟩ | ⟨failure, herror, herror'⟩
  · rw [hok, hok']
    dsimp only
    cases Flow.successors m.instructions pos insn with
    | error e => rfl
    | ok targets =>
        dsimp only
        rcases map_eq_map_cases (map_shapes_flowOut h hafter targets) with
          ⟨s₁, t₁, hout, hout', h₁⟩ | ⟨failure, hout, hout'⟩
        · rw [hout, hout']
          exact map_shapes_flowToHandlers h₁ hafter m.handlers
        · rw [hout, hout']
  · rw [herror, herror']

omit h in
/-- A position without an instruction or without a frame is skipped. -/
theorem visited_or_skipped (m : Method) (s : State) (pos : Nat) :
    (∃ insn before, m.instructions[pos]? = some insn ∧
        s.frame? pos = some before) ∨
      ∀ insn before, m.instructions[pos]? = some insn →
        s.frame? pos ≠ some before := by
  rw [or_iff_not_imp_left]
  intro hvisited insn before hinsn hbefore
  exact hvisited ⟨insn, before, hinsn, hbefore⟩

omit h in
theorem visit_of_frame {insn : Instruction}
    (hinsn : m.instructions[pos]? = some insn)
    (hbefore : s.frame? pos = some before) :
    visit m s pos = (propagate m (s.leave pos) pos insn before).mapError
      (Failure.map (⟨m.signature, some (pos, insn.opcode), ·⟩)) := by
  have hleave : (s.leave pos).frame? pos = some before := hbefore
  rw [State.leave] at hleave ⊢
  simp only [visit, hinsn, hleave]
  cases propagate m { s with pending := s.pending.erase pos } pos insn
    before <;> rfl

omit h in
theorem visit_of_skip
    (hskip : ∀ insn before, m.instructions[pos]? = some insn →
      s.frame? pos ≠ some before) :
    visit m s pos = .ok (s.leave pos) := by
  rw [visit]
  split
  · rename_i insn before hinsn hbefore
    exact absurd hbefore (hskip insn before hinsn)
  · rfl

/-- A visit of one position does the same to the shapes of two states, or fails
with the same report. -/
theorem map_shapes_visit (m : Method) (pos : Nat) :
    (visit m s pos).map State.shapes = (visit m t pos).map State.shapes := by
  have hframe := map_shape_frame? h pos
  have hleave : (s.leave pos).shapes = (t.leave pos).shapes := h
  rcases visited_or_skipped m s pos with ⟨insn, before, hinsn, hbefore⟩ | hskip
  · obtain ⟨before', hbefore', hshape⟩ :
        ∃ before', t.frame? pos = some before' ∧
          before'.shape = before.shape := by
      simpa [hbefore, eq_comm] using hframe
    rw [visit_of_frame hinsn hbefore, visit_of_frame hinsn hbefore']
    have hpropagate := map_shapes_propagate hleave hshape.symm m pos insn
    rcases map_eq_map_cases hpropagate with
      ⟨s', t', hok, hok', h'⟩ | ⟨failure, herror, herror'⟩
    · rw [hok, hok']
      exact congrArg Except.ok h'
    · rw [herror, herror']
  · have hskip' : ∀ insn before, m.instructions[pos]? = some insn →
        t.frame? pos ≠ some before := by
      intro insn before hinsn hbefore
      rw [hbefore] at hframe
      obtain ⟨before', hbefore', -⟩ := Option.map_eq_some_iff.mp hframe
      exact hskip insn before' hinsn hbefore'
    rw [visit_of_skip hskip, visit_of_skip hskip']
    exact congrArg Except.ok hleave

end Shapes

/-! ## Visits that change nothing -/

open State (Fitting Holding)

/-- A frame is absorbed by a higher one. -/
theorem State.Fitting.flow_eq_self (hs : Fitting m s) (hf : Frame.Fits m f)
    (hcovered : Covered Frame.Below s.frame? pos f) : s.flow pos f = .ok s := by
  obtain ⟨g, hg, hle⟩ := hcovered
  have hsizes : ∀ g', s.frame? pos = some g' →
      g'.stack.map (·.size) = f.stack.map (·.size) := by
    intro g' hg'
    rw [hg, Option.some.injEq] at hg'
    rw [← hg', hle.sizes_eq]
  have habsorbed : s.frame? pos = some (s.absorb pos f) := by
    rw [State.absorb_of_some hg, (hs.fits hg).join_eq_of_below hf hle, hg]
  rw [Holding.flow_eq hs hf hsizes, if_pos habsorbed]

theorem State.Fitting.flowOut_eq_self {targets : List Nat} (hs : Fitting m s)
    (hafter : Frame.Fits m after)
    (hcovered : ∀ t ∈ targets, Covered Frame.Below s.frame? t after) :
    flowOut after s targets = .ok s := by
  induction targets with
  | nil => rfl
  | cons target targets ih =>
      rw [flowOut, hs.flow_eq_self hafter (hcovered target (by simp))]
      apply ih
      intro t ht
      exact hcovered t (by simp [ht])

theorem State.Fitting.flowToHandlers_eq_self {handlers : List Handler}
    (hs : Fitting m s) (hbefore : s.frame? pos = some before)
    (hafter : Frame.Fits m after)
    (hcaught : ∀ h ∈ handlers, h.covers pos → ∃ f,
      handlerFrame before after = .ok f ∧
        Covered Frame.Below s.frame? h.target.toInt.toNat f) :
    flowToHandlers pos after s handlers = .ok s := by
  induction handlers with
  | nil => rfl
  | cons handler handlers ih =>
      have hrest : flowToHandlers pos after s handlers = .ok s := by
        apply ih
        intro h hmem
        exact hcaught h (by simp [hmem])
      rw [flowToHandlers, hbefore, Option.getD_some]
      split_ifs with hcovers
      · obtain ⟨f, hf, hcovered⟩ := hcaught handler (by simp) hcovers
        have hfits := fits_of_handlerFrame (hs.fits hbefore) hafter hf
        rw [hf]
        dsimp only
        rw [hs.flow_eq_self hfits hcovered]
        exact hrest
      · exact hrest

/-- A visit of a settled position changes no frame. -/
theorem State.Fitting.visit_eq (hs : Fitting m s)
    (hclosed : Closed Frame.Below m s.frame? pos) :
    visit m s pos = .ok (s.leave pos) := by
  rcases visited_or_skipped m s pos with ⟨insn, before, hinsn, hbefore⟩ | hskip
  · obtain ⟨after, targets, hprop⟩ := hclosed insn before hinsn hbefore
    have hleave : Fitting m (s.leave pos) := Holding.leave hs pos
    have hafter := (hs.fits hbefore).step hprop.step
    have hpropagate : propagate m (s.leave pos) pos insn before =
        .ok (s.leave pos) :=
      propagate_eq_ok_iff.mpr ⟨after, targets, s.leave pos, hprop.step,
        hprop.successors, hleave.flowOut_eq_self hafter hprop.next,
        hleave.flowToHandlers_eq_self hbefore hafter hprop.caught⟩
    rw [visit_of_frame hinsn hbefore, hpropagate]
    rfl
  · exact visit_of_skip hskip

/-! ## Two runs side by side -/

theorem run_of_pending {rest : List Nat} (m : Method) (left : Nat)
    (hpending : s.pending = pos :: rest) :
    run m (left + 1) s = (visit m s pos).bind (run m left) := by
  rw [run, hpending]
  dsimp only
  cases visit m s pos <;> rfl

theorem run_of_pending_eq_nil (m : Method) (visits : Nat)
    (hpending : s.pending = []) : run m visits s = .ok s := by
  cases visits with
  | zero => rfl
  | succ left => rw [run, hpending]

/-- Two computations that agree up to a view of their errors. -/
theorem mapError_eq_mapError_cases {ε δ α : Type} {view : ε → δ}
    {x y : Except ε α} (h : x.mapError view = y.mapError view) :
    (∃ a, x = .ok a ∧ y = .ok a) ∨
      ∃ e e', x = .error e ∧ y = .error e' ∧ view e = view e' := by
  cases x with
  | ok a =>
      cases y with
      | ok b =>
          cases h
          exact Or.inl ⟨a, rfl, rfl⟩
      | error e => cases h
  | error e =>
      cases y with
      | ok b => cases h
      | error e' =>
          have hview : view e = view e' := Except.error.inj h
          exact Or.inr ⟨e, e', rfl, rfl, hview⟩

section Lockstep

variable {m' : Method} {P : State → Prop}
  (hnext : ∀ {s s' pos}, P s → pos ∈ s.pending → visit m s pos = .ok s' → P s')

include hnext

/-- If the visits of two methods agree, up to a view of the failures, in all
states of an invariant, then so do their runs. -/
theorem mapError_run {δ : Type} (view : Failure Malformed → δ)
    (hvisit : ∀ {s pos}, P s → pos ∈ s.pending →
      (visit m s pos).mapError view = (visit m' s pos).mapError view)
    (hs : P s) (visits : Nat) :
    (run m visits s).mapError view = (run m' visits s).mapError view := by
  induction visits generalizing s with
  | zero => rfl
  | succ visits ih =>
      cases hpending : s.pending with
      | nil =>
          rw [run_of_pending_eq_nil _ _ hpending,
            run_of_pending_eq_nil _ _ hpending]
      | cons pos rest =>
          have hmem : pos ∈ s.pending := by simp [hpending]
          rw [run_of_pending _ _ hpending, run_of_pending _ _ hpending]
          rcases mapError_eq_mapError_cases (hvisit hs hmem) with
            ⟨s', hok, hok'⟩ | ⟨failure, failure', herror, herror', hview⟩
          · rw [hok, hok']
            exact ih (hnext hs hmem hok)
          · rw [herror, herror']
            exact congrArg Except.error hview

theorem run_congr
    (hvisit : ∀ {s pos}, P s → pos ∈ s.pending → visit m s pos = visit m' s pos)
    (hs : P s) (visits : Nat) : run m visits s = run m' visits s := by
  have hrun := mapError_run hnext id
    (fun hs hmem => congrArg (Except.mapError id) (hvisit hs hmem)) hs visits
  rcases mapError_eq_mapError_cases hrun with
    ⟨s', hok, hok'⟩ | ⟨failure, failure', herror, herror', hsame⟩
  · rw [hok, hok']
  · rw [herror, herror']
    exact congrArg Except.error hsame

end Lockstep

/-- A state of a run that has enough visits left. -/
structure OnTrack (m : Method) (entry : Frame) (visits : Nat) (s : State) :
    Prop where
  invariant : Invariant m (fun _ _ => True) entry s
  ascending : s.Ascending
  work_le : s.work m ≤ visits

namespace OnTrack

variable {entry entry' : Frame} {visits visits' : Nat} {rest : List Nat}

theorem exists_visits (hs : OnTrack m entry visits s)
    (hpending : s.pending = pos :: rest) : ∃ left, visits = left + 1 := by
  have hwork := hs.work_le
  rw [State.work, hpending, List.length_cons] at hwork
  exact ⟨visits - 1, by omega⟩

section Handlers

variable (hhandlers : ∀ h ∈ m.handlers,
  h.target.toInt.toNat < m.instructions.length)

include hhandlers

theorem next {s' : State} (hs : OnTrack m entry (visits + 1) s)
    (hpending : s.pending = pos :: rest) (hvisit : visit m s pos = .ok s') :
    OnTrack m entry visits s' := by
  have hmem : pos ∈ s.pending := by simp [hpending]
  obtain ⟨hinvariant, hless⟩ :=
    hs.invariant.visit (stable_true m) hhandlers hmem hvisit
  have hmerges := merges_of_visit hs.invariant.holding hhandlers hvisit
  have hwork := hs.work_le
  exact ⟨hinvariant, hmerges.ascending (hs.ascending.leave pos), by omega⟩

/-- A position that is pending here and settled in a state of the same shapes is
visited without any change of the shapes. -/
theorem stutter (hs : OnTrack m entry visits s)
    (ht : OnTrack m entry' visits' t) (h : s.shapes = t.shapes)
    (hpending : s.pending = pos :: rest) (hsettled : pos ∉ t.pending) :
    ∃ left s₁, visits = left + 1 ∧ run m visits s = run m left s₁ ∧
      OnTrack m entry left s₁ ∧ s₁.shapes = t.shapes := by
  obtain ⟨left, rfl⟩ := hs.exists_visits hpending
  have hvisit := map_shapes_visit h m pos
  rw [State.Fitting.visit_eq ht.invariant.holding
    (ht.invariant.settled pos hsettled)] at hvisit
  rcases map_eq_map_cases hvisit with
    ⟨s₁, t₁, hok, hok', hshapes⟩ | ⟨failure, -, herror⟩
  · cases hok'
    refine ⟨left, s₁, rfl, ?_, hs.next hhandlers hpending hok, hshapes⟩
    rw [run_of_pending m left hpending, hok]
    rfl
  · cases herror

/-- Two runs from states of the same shapes lead to the same shapes, or to the
same failure. -/
theorem map_shapes_run (hs : OnTrack m entry visits s)
    (ht : OnTrack m entry' visits' t) (h : s.shapes = t.shapes) :
    (run m visits s).map State.shapes = (run m visits' t).map State.shapes := by
  -- By induction on the visits that the two runs have left together.
  induction hn : visits + visits' using Nat.strong_induction_on
    generalizing visits visits' s t with
  | _ n ih =>
      have hstutter : ∀ {p rest}, s.pending = p :: rest → p ∉ t.pending →
          (run m visits s).map State.shapes =
            (run m visits' t).map State.shapes := by
        intro p rest hp hsettled
        obtain ⟨left, s₁, rfl, hrun, hs₁, h₁⟩ :=
          hs.stutter hhandlers ht h hp hsettled
        rw [hrun]
        exact ih (left + visits') (by omega) hs₁ ht h₁ rfl
      have hstutter' : ∀ {q rest}, t.pending = q :: rest → q ∉ s.pending →
          (run m visits s).map State.shapes =
            (run m visits' t).map State.shapes := by
        intro q rest hq hsettled
        obtain ⟨left, t₁, rfl, hrun, ht₁, h₁⟩ :=
          ht.stutter hhandlers hs h.symm hq hsettled
        rw [hrun]
        exact ih (visits + left) (by omega) hs ht₁ h₁.symm rfl
      cases hp : s.pending with
      | nil =>
          cases hq : t.pending with
          | nil =>
              rw [run_of_pending_eq_nil m visits hp,
                run_of_pending_eq_nil m visits' hq]
              exact congrArg Except.ok h
          | cons q rest => exact hstutter' hq (by simp [hp])
      | cons p rest =>
          by_cases hpt : p ∈ t.pending
          · cases hq : t.pending with
            | nil => simp [hq] at hpt
            | cons q rest' =>
                by_cases hqs : q ∈ s.pending
                · -- Both runs visit their lowest pending position.
                  have hpq : p = q :=
                    Nat.le_antisymm (hs.ascending.le_of_mem hp hqs)
                      (ht.ascending.le_of_mem hq hpt)
                  subst hpq
                  obtain ⟨left, rfl⟩ := hs.exists_visits hp
                  obtain ⟨left', rfl⟩ := ht.exists_visits hq
                  rw [run_of_pending m left hp, run_of_pending m left' hq]
                  rcases map_eq_map_cases (map_shapes_visit h m p) with
                    ⟨s₁, t₁, hok, hok', h₁⟩ | ⟨failure, herror, herror'⟩
                  · rw [hok, hok']
                    exact ih (left + left') (by omega)
                      (hs.next hhandlers hp hok) (ht.next hhandlers hq hok') h₁
                      rfl
                  · rw [herror, herror']
                    rfl
                · exact hstutter' hq hqs
          · exact hstutter hp hpt

end Handlers

end OnTrack

/-! ## Two analyses -/

variable {assumed assumed' : Nullability} {params : List Nullability}

/-- The visits do not look at what is declared about the parameters. -/
theorem run_withParams (m : Method) (params : List Nullability) (visits : Nat)
    (s : State) :
    run { m with params := params } visits s = run m visits s := by
  have hvisit : visit { m with params := params } = visit m := rfl
  exact run_congr (fun _ _ _ => trivial) (fun _ _ => by rw [hvisit]) trivial
    visits

theorem fits_of_withParams
    (hf : Frame.Fits { m with params := params } f) : Frame.Fits m f :=
  ⟨hf.sound, hf.length_locals, hf.maxStack_eq⟩

theorem onTrack_start {entry : Frame} (hne : m.instructions ≠ [])
    (hentry : Frame.Fits m entry) :
    OnTrack m entry (visitBound m) (start m entry) where
  invariant := Invariant.start hne hentry trivial
  ascending := List.pairwise_singleton _ _
  work_le := work_start_le hne

theorem shapes_start {entry entry' : Frame}
    (h : entry.shape = entry'.shape) :
    (start m entry).shapes = (start m entry').shapes := by
  simp [start, State.shapes, shapes, Array.map_setIfInBounds, h]

/-- What is declared or assumed about the parameters of a method does not change
the shapes that the analysis finds, or the failure that it ends with. -/
theorem map_shapes_analyze (assumed assumed' : Nullability) (m : Method)
    (params : List Nullability) :
    (analyze assumed m).map shapes =
      (analyze assumed' { m with params := params }).map shapes := by
  by_cases hne : m.instructions = []
  · simp [analyze, hne]
  · have hempty : ¬m.instructions.isEmpty := by simpa using hne
    have hbad : badHandler? { m with params := params } = badHandler? m := rfl
    rw [analyze, analyze, if_neg hempty, if_neg hempty, hbad]
    cases hhandlers : badHandler? m with
    | some handler => rfl
    | none =>
        have hentries : (entryFrame assumed m).map Frame.shape =
            (entryFrame assumed' { m with params := params }).map Frame.shape :=
          map_shape_entryFrame
        dsimp only
        rcases map_eq_map_cases hentries with
          ⟨entry, entry', hentry, hentry', hshape⟩ | ⟨failure, herror, herror'⟩
        · have hfits := (fits_of_entryFrame hentry).1
          have hfits' := (fits_of_entryFrame hentry').1
          have hruns := (onTrack_start hne hfits).map_shapes_run
            (target_lt_of_badHandler? hhandlers)
            (onTrack_start hne (fits_of_withParams hfits'))
            (shapes_start hshape)
          have hrun' : run { m with params := params }
              (visitBound { m with params := params })
              (start { m with params := params } entry') =
                run m (visitBound m) (start m entry') :=
            run_withParams m params (visitBound m) (start m entry')
          rw [hentry, hentry']
          dsimp only
          rw [hrun']
          rcases map_eq_map_cases hruns with
            ⟨s, t, hok, hok', hshapes⟩ | ⟨failure, herror, herror'⟩
          · rw [hok, hok']
            exact congrArg Except.ok hshapes
          · rw [herror, herror']
        · rw [herror, herror']
          rfl

/-- Nullability never decides acceptance: with all declared and assumed
nullabilities of its parameters, the analysis accepts a method, and reaches the
same positions with slots of the same kinds, or it rejects the method, and
reports the same position and cause. -/
theorem acceptance_ignores_nullability (assumed assumed' : Nullability)
    (m : Method) (params : List Nullability) :
    (∃ frames frames', analyze assumed m = .ok frames ∧
        analyze assumed' { m with params := params } = .ok frames' ∧
        frames.size = frames'.size ∧
        ∀ pos, (Diagnosis.frameAt? frames pos).map Frame.shape =
          (Diagnosis.frameAt? frames' pos).map Frame.shape) ∨
      ∃ failure, analyze assumed m = .error failure ∧
        analyze assumed' { m with params := params } = .error failure := by
  rcases map_eq_map_cases (map_shapes_analyze assumed assumed' m params) with
    ⟨frames, frames', hok, hok', hshapes⟩ | hfailure
  · refine Or.inl ⟨frames, frames', hok, hok', ?_, ?_⟩
    · simpa [shapes] using congrArg Array.size hshapes
    · intro pos
      rw [map_shape_frameAt?, map_shape_frameAt?, hshapes]
  · exact Or.inr hfailure

end Analysis
end Nullness
