import Mathlib.Data.List.Sort
import Nullness.Proofs.Acceptance
import Nullness.Proofs.OrderOfVisits

/-!
# The exception table is a set

The handlers that protect an instruction are served one after the other, each
with a frame that is made from the state before the instruction as it is at that
moment.  A handler may begin at the very instruction that it protects, and then
serving it moves that state up.  What is made from it stays the same: a
handler's frame lies above the state before the instruction, so joining it to
that state adds nothing to the next handler's frame.

So the handlers of a visit are all served with one frame.  Merging one frame
into several positions depends only on which positions these are, and therefore
the analysis depends only on which ranges and targets the exception table has.
-/

namespace Nullness

/-- What an entry of an exception table protects, and where control goes. -/
def Handler.range (h : Handler) : Int64 × Int64 × Int64 :=
  (h.start, h.stop, h.target)

theorem Handler.range_eq_iff {h h' : Handler} :
    h.range = h'.range ↔
      h.start = h'.start ∧ h.stop = h'.stop ∧ h.target = h'.target := by
  simp [Handler.range]

namespace Frame

variable {m : Method} {f g : Frame}

/-- Joining a higher frame to a frame gives the higher frame. -/
theorem Fits.join_eq_right_of_below (hf : Fits m f) (hg : Fits m g)
    (h : f.Below g) : f.join g = g := by
  have hjoinable := hf.joinable hg h.sizes_eq
  exact (hf.join hg h.sizes_eq).below_antisymm hg
    (hjoinable.join_below h (below_refl g)) hjoinable.below_join_right

theorem caught_join (f g h : Frame) :
    (f.join (g.caught.join h.caught)).caught =
      f.caught.join (g.caught.join h.caught) := by
  simp [caught, join]

end Frame

namespace Analysis

open State (Fitting Holding)

variable {m : Method} {s s' : State} {pos : Nat} {f before after : Frame}
  {targets targets' : List Nat} {handlers handlers' : List Handler}

/-! ## One frame and several positions -/

namespace State

/-- Merging a frame twice is merging it once. -/
theorem Fitting.absorb_of_flow {target : Nat} (hs : Fitting m s)
    (htarget : target < m.instructions.length) (hf : Frame.Fits m f)
    (h : s.flow target f = .ok s') (p : Nat) :
    s'.absorb p f = s.absorb p f := by
  obtain ⟨hsizes, -⟩ := flow_eq_ok h
  have hframe : s'.frame? p =
      if p = target then some (s.absorb target f) else s.frame? p :=
    frame?_flow (hs.size_eq ▸ htarget) h
  by_cases hp : p = target
  · subst hp
    rw [if_pos rfl] at hframe
    rw [absorb_of_some hframe]
    exact (hs.fits_absorb hf hsizes).join_eq_of_below hf
      (hs.below_absorb hf hsizes)
  · rw [if_neg hp] at hframe
    rw [absorb, absorb, hframe]

/-- The second state is the first one with a frame merged into each of some
positions. -/
structure Spread (f : Frame) (targets : List Nat) (s s' : State) : Prop where
  size_eq : s'.frames.size = s.frames.size
  frame_eq : ∀ p, s'.frame? p =
    if p ∈ targets then some (s.absorb p f) else s.frame? p
  mem_pending : ∀ p, p ∈ s'.pending ↔
    p ∈ s.pending ∨ p ∈ targets ∧ s.frame? p ≠ some (s.absorb p f)
  ascending : s'.Ascending

/-- Only the set of the positions matters. -/
theorem Spread.unique {s'' : State} (h : Spread f targets s s')
    (h' : Spread f targets' s s'') (hmem : ∀ p, p ∈ targets ↔ p ∈ targets') :
    s' = s'' := by
  have hframes : s'.frames = s''.frames := by
    apply frames_eq_of_frame?
    · rw [h.size_eq, h'.size_eq]
    · intro p
      simp only [h.frame_eq, h'.frame_eq, hmem]
  have hpending : s'.pending = s''.pending := by
    apply h.ascending.eq_of_mem_iff h'.ascending
    intro p
    rw [h.mem_pending, h'.mem_pending, hmem]
  cases s'
  cases s''
  simp_all

theorem Fitting.spread_of_flow {target : Nat} (hs : Fitting m s)
    (hsorted : s.Ascending) (htarget : target < m.instructions.length)
    (h : s.flow target f = .ok s') : Spread f [target] s s' where
  size_eq := by
    rw [(flow_eq_ok h).2]
    split_ifs
    · rfl
    · exact Array.size_setIfInBounds
  frame_eq p := by
    rw [frame?_flow (hs.size_eq ▸ htarget) h]
    by_cases hp : p = target <;> simp [hp]
  mem_pending p := by
    rw [(flow_eq_ok h).2, List.mem_singleton]
    split_ifs with hsame
    · refine (or_iff_left ?_).symm
      rintro ⟨rfl, hne⟩
      exact hne hsame
    · rw [update, mem_insertPosition, or_comm]
      refine or_congr_right (iff_self_and.mpr ?_)
      rintro rfl
      exact hsame
  ascending := hsorted.flow h

section FlowOut

variable (hs : Fitting m s) (hf : Frame.Fits m f)
  (htargets : ∀ t ∈ targets, t < m.instructions.length)

include hs hf htargets

theorem Fitting.spread_of_flowOut (hsorted : s.Ascending)
    (h : flowOut f s targets = .ok s') : Spread f targets s s' := by
  induction targets generalizing s with
  | nil =>
      cases h
      exact ⟨rfl, by simp, by simp, hsorted⟩
  | cons target targets ih =>
      obtain ⟨htarget, hrest⟩ := List.forall_mem_cons.mp htargets
      rw [flowOut] at h
      split at h
      · cases h
      · rename_i s₁ hflow
        have hfirst := hs.spread_of_flow hsorted htarget hflow
        have hspread := ih (hs.flow htarget hf hflow) hrest hfirst.ascending h
        have habsorb := hs.absorb_of_flow htarget hf hflow
        refine ⟨?_, ?_, ?_, hspread.ascending⟩
        · rw [hspread.size_eq, hfirst.size_eq]
        · intro p
          rw [hspread.frame_eq, habsorb, hfirst.frame_eq]
          by_cases hp : p = target <;> simp [hp]
        · intro p
          rw [hspread.mem_pending, habsorb, hfirst.mem_pending, hfirst.frame_eq]
          by_cases hp : p = target <;> simp [hp]

/-- A frame can be merged into positions whose frames have stacks of its
shape. -/
theorem Fitting.exists_flowOut
    (hsizes : ∀ t ∈ targets, ∀ g, s.frame? t = some g →
      g.stack.map (·.size) = f.stack.map (·.size)) :
    ∃ s', flowOut f s targets = .ok s' := by
  induction targets generalizing s with
  | nil => exact ⟨s, rfl⟩
  | cons target targets ih =>
      obtain ⟨htarget, hrest⟩ := List.forall_mem_cons.mp htargets
      obtain ⟨hsize, hsizes⟩ := List.forall_mem_cons.mp hsizes
      have hflow := Holding.flow_eq hs hf hsize
      rw [flowOut, hflow]
      apply ih (hs.flow htarget hf hflow) hrest
      intro t ht g hg
      rw [frame?_flow (hs.size_eq ▸ htarget) hflow] at hg
      split_ifs at hg with htt
      · cases hg
        exact (Holding.below_absorb hs hf hsize).sizes_eq.symm
      · exact hsizes t ht g hg

/-- What merging a frame into several positions does depends only on the set of
these positions. -/
theorem Fitting.flowOut_congr (hsorted : s.Ascending)
    (hmem : ∀ p, p ∈ targets ↔ p ∈ targets')
    (h : flowOut f s targets = .ok s') : flowOut f s targets' = .ok s' := by
  have htargets' : ∀ t ∈ targets', t < m.instructions.length := by
    intro t ht
    exact htargets t ((hmem t).mpr ht)
  obtain ⟨-, hgrows, hcovered⟩ := flowOut_spec (stable_true m).join hs hf
    (fun t ht => ⟨htargets t ht, trivial⟩) h
  -- A frame that was there and the frame that is merged both lie below the
  -- frame that is there now.
  have hsizes : ∀ t ∈ targets', ∀ g, s.frame? t = some g →
      g.stack.map (·.size) = f.stack.map (·.size) := by
    intro t ht g hg
    obtain ⟨u, hu, hle⟩ := hcovered t ((hmem t).mpr ht)
    obtain ⟨u', hu', hle'⟩ := hgrows.rises hg
    have hsame : u = u' := Option.some.inj (hu.symm.trans hu')
    subst hsame
    exact hle'.sizes_eq.trans hle.sizes_eq.symm
  obtain ⟨s'', h'⟩ := hs.exists_flowOut hf htargets' hsizes
  have hspread := hs.spread_of_flowOut hf htargets hsorted h
  have hspread' := hs.spread_of_flowOut hf htargets' hsorted h'
  rw [hspread.unique hspread' hmem]
  exact h'

end FlowOut

end State

/-! ## The handlers of one instruction -/

/-- Where control may go when the instruction at a position throws. -/
def handlerTargets (handlers : List Handler) (pos : Nat) : List Nat :=
  (handlers.filter (·.covers pos)).map (·.target.toInt.toNat)

theorem mem_handlerTargets {t : Nat} :
    t ∈ handlerTargets handlers pos ↔
      ∃ h ∈ handlers, h.covers pos ∧ h.target.toInt.toNat = t := by
  simp [handlerTargets, and_assoc]

/-- Two exception tables with the same ranges and targets. -/
def SameRanges (handlers handlers' : List Handler) : Prop :=
  ∀ range, range ∈ handlers.map Handler.range ↔
    range ∈ handlers'.map Handler.range

theorem SameRanges.symm (h : SameRanges handlers handlers') :
    SameRanges handlers' handlers :=
  fun range => (h range).symm

theorem SameRanges.exists_mem (h : SameRanges handlers handlers')
    {handler : Handler} (hmem : handler ∈ handlers) :
    ∃ handler' ∈ handlers', handler'.range = handler.range :=
  List.mem_map.mp ((h _).mp (List.mem_map_of_mem hmem))

theorem SameRanges.exists_iff (h : SameRanges handlers handlers')
    {P : Handler → Prop} (hP : ∀ {a b}, a.range = b.range → P a → P b) :
    (∃ handler ∈ handlers, P handler) ↔ ∃ handler ∈ handlers', P handler := by
  constructor
  · rintro ⟨handler, hmem, hholds⟩
    obtain ⟨handler', hmem', hrange⟩ := h.exists_mem hmem
    exact ⟨handler', hmem', hP hrange.symm hholds⟩
  · rintro ⟨handler, hmem, hholds⟩
    obtain ⟨handler', hmem', hrange⟩ := h.symm.exists_mem hmem
    exact ⟨handler', hmem', hP hrange.symm hholds⟩

theorem SameRanges.mem_handlerTargets (h : SameRanges handlers handlers')
    (pos t : Nat) :
    t ∈ handlerTargets handlers pos ↔ t ∈ handlerTargets handlers' pos := by
  rw [Analysis.mem_handlerTargets, Analysis.mem_handlerTargets]
  apply h.exists_iff
  intro a b hrange hholds
  obtain ⟨hstart, hstop, htarget⟩ := Handler.range_eq_iff.mp hrange
  rwa [Handler.covers, ← hstart, ← hstop, ← htarget]

/-- The frame for a handler stays the same when a handler at the instruction
itself has been served. -/
theorem caught_join_of_flow {target : Nat} {current : Frame} (hs : Fitting m s)
    (hbefore : s.frame? pos = some before) (hafter : Frame.Fits m after)
    (htarget : target < m.instructions.length)
    (hincoming : handlerFrame before after = .ok f)
    (hflow : s.flow target f = .ok s')
    (hcurrent : s'.frame? pos = some current) :
    current.caught.join after.caught = f := by
  have hfits := hs.fits hbefore
  have hjoin := fits_of_handlerFrame hfits hafter hincoming
  have hjoinable := joinable_caught hfits.regular hafter.regular hincoming
  obtain ⟨-, hroom, rfl⟩ := handlerFrame_eq_ok_iff.mp hincoming
  have hcaught := hfits.caught hroom
  have hcaught' : Frame.Fits m after.caught := by
    apply hafter.caught
    rwa [hafter.maxStack_eq, ← hfits.maxStack_eq]
  rw [State.frame?_flow (hs.size_eq ▸ htarget) hflow] at hcurrent
  split_ifs at hcurrent with hpos
  · subst hpos
    rw [State.absorb_of_some hbefore] at hcurrent
    cases hcurrent
    have hmoved : (before.join (before.caught.join after.caught)).caught =
        before.caught.join after.caught := by
      rw [Frame.caught_join,
        hcaught.join_eq_right_of_below hjoin hjoinable.below_join_left]
    rw [hmoved]
    exact hjoin.join_eq_of_below hcaught' hjoinable.below_join_right
  · rw [hbefore] at hcurrent
    cases hcurrent
    rfl

/-- All handlers of an instruction are served with one frame. -/
theorem flowToHandlers_eq_ok_iff (hs : Fitting m s)
    (hbefore : s.frame? pos = some before) (hafter : Frame.Fits m after)
    (hhandlers : ∀ h ∈ handlers,
      h.target.toInt.toNat < m.instructions.length) :
    flowToHandlers pos after s handlers = .ok s' ↔
      (handlerTargets handlers pos ≠ [] → 0 < m.maxStack.toInt.toNat) ∧
        flowOut (before.caught.join after.caught) s
          (handlerTargets handlers pos) = .ok s' := by
  induction handlers generalizing s before with
  | nil => simp [flowToHandlers, handlerTargets, flowOut]
  | cons handler handlers ih =>
      obtain ⟨htarget, hrest⟩ := List.forall_mem_cons.mp hhandlers
      rw [flowToHandlers, hbefore, Option.getD_some]
      by_cases hcovers : handler.covers pos
      · have htargets : handlerTargets (handler :: handlers) pos =
            handler.target.toInt.toNat :: handlerTargets handlers pos := by
          simp [handlerTargets, hcovers]
        have hfits := hs.fits hbefore
        rw [if_pos hcovers, htargets]
        by_cases hroom : 0 < m.maxStack.toInt.toNat
        · have hincoming : handlerFrame before after =
              .ok (before.caught.join after.caught) :=
            (handlerFrame_eq_ok_iff_of_fits hfits hafter).mpr ⟨hroom, rfl⟩
          have hjoin := hfits.join_caught hafter hroom
          rw [hincoming, flowOut]
          dsimp only
          cases hflow : s.flow handler.target.toInt.toNat
              (before.caught.join after.caught) with
          | error e => simp
          | ok s₁ =>
              have hgrows := Holding.grows_of_flow hs htarget hjoin hflow
              obtain ⟨current, hcurrent, -⟩ := hgrows.rises hbefore
              dsimp only
              rw [ih (hs.flow htarget hjoin hflow) hcurrent hrest,
                caught_join_of_flow hs hbefore hafter htarget hincoming hflow
                  hcurrent,
                and_iff_right fun _ => hroom, and_iff_right fun _ => hroom]
        · refine iff_of_false ?_ fun h => hroom (h.1 (by simp))
          cases hincoming : handlerFrame before after with
          | error failure => simp
          | ok f =>
              have hmax :=
                ((handlerFrame_eq_ok_iff_of_fits hfits hafter).mp hincoming).1
              exact absurd hmax hroom
      · have htargets : handlerTargets (handler :: handlers) pos =
            handlerTargets handlers pos := by
          simp [handlerTargets, hcovers]
        rw [if_neg hcovers, htargets]
        exact ih hs hbefore hrest

theorem handlerFrame_ne_crash (before after : Frame) :
    handlerFrame before after ≠ .error .crash := by
  rw [handlerFrame]
  split
  · simp
  · rw [Frame.push]
    split_ifs <;> rintro ⟨⟩

theorem flowToHandlers_ne_crash (pos : Nat) (after : Frame) (s : State)
    (handlers : List Handler) :
    flowToHandlers pos after s handlers ≠ .error .crash := by
  induction handlers generalizing s with
  | nil => simp [flowToHandlers]
  | cons handler handlers ih =>
      rw [flowToHandlers]
      split_ifs
      · split
        · rename_i failure hfailure
          rintro ⟨⟩
          exact handlerFrame_ne_crash _ _ hfailure
        · split
          · simp
          · exact ih _
      · exact ih s

/-- Two computations that succeed with the same results, and do not crash, agree
up to the errors that they report. -/
theorem mapError_eq_of_ok_iff {ε δ α : Type} {x y : Except (Failure ε) α}
    (hok : ∀ a, x = .ok a ↔ y = .ok a) (hx : x ≠ .error .crash)
    (hy : y ≠ .error .crash) (e : δ) :
    x.mapError (Failure.map fun _ => e) =
      y.mapError (Failure.map fun _ => e) := by
  cases x with
  | ok a => rw [(hok a).mp rfl]
  | error failure =>
      cases y with
      | ok a => cases (hok a).mpr rfl
      | error failure' =>
          cases failure with
          | crash => exact absurd rfl hx
          | error e =>
              cases failure' with
              | crash => exact absurd rfl hy
              | error e' => rfl

/-! ## Two exception tables -/

theorem flowToHandlers_congr (hs : Fitting m s) (hsorted : s.Ascending)
    (hbefore : s.frame? pos = some before) (hafter : Frame.Fits m after)
    (hhandlers : ∀ h ∈ handlers, h.target.toInt.toNat < m.instructions.length)
    (hhandlers' : ∀ h ∈ handlers',
      h.target.toInt.toNat < m.instructions.length)
    (htables : SameRanges handlers handlers')
    (h : flowToHandlers pos after s handlers = .ok s') :
    flowToHandlers pos after s handlers' = .ok s' := by
  have hmem := htables.mem_handlerTargets pos
  have hnil : handlerTargets handlers pos = [] ↔
      handlerTargets handlers' pos = [] := by
    simp only [List.eq_nil_iff_forall_not_mem, hmem]
  rw [flowToHandlers_eq_ok_iff hs hbefore hafter hhandlers] at h
  rw [flowToHandlers_eq_ok_iff hs hbefore hafter hhandlers']
  obtain ⟨hroom, hout⟩ := h
  rw [ne_eq, hnil] at hroom
  refine ⟨hroom, ?_⟩
  by_cases hempty : handlerTargets handlers' pos = []
  · rw [hnil.mpr hempty] at hout
    rw [hempty]
    exact hout
  · have hjoin : Frame.Fits m (before.caught.join after.caught) :=
      (hs.fits hbefore).join_caught hafter (hroom hempty)
    have htargets : ∀ t ∈ handlerTargets handlers pos,
        t < m.instructions.length := by
      intro t ht
      obtain ⟨h, hmem, -, rfl⟩ := mem_handlerTargets.mp ht
      exact hhandlers h hmem
    exact hs.flowOut_congr hjoin htargets hsorted hmem hout

section Tables

variable (htables : SameRanges m.handlers handlers)

include htables

theorem SameRanges.target_lt
    (hhandlers : ∀ h ∈ m.handlers,
      h.target.toInt.toNat < m.instructions.length) :
    ∀ h ∈ handlers, h.target.toInt.toNat < m.instructions.length := by
  intro h hmem
  obtain ⟨h', hmem', hrange⟩ := htables.symm.exists_mem hmem
  rw [← (Handler.range_eq_iff.mp hrange).2.2]
  exact hhandlers h' hmem'

section Visits

variable (hhandlers : ∀ h ∈ m.handlers,
  h.target.toInt.toNat < m.instructions.length)

include hhandlers

theorem SameRanges.mapError_propagate {δ : Type} {insn : Instruction}
    (hs : Fitting m s) (hsorted : s.Ascending)
    (hbefore : s.frame? pos = some before) (e : δ) :
    (propagate m s pos insn before).mapError (Failure.map fun _ => e) =
      (propagate { m with handlers := handlers } s pos insn before).mapError
        (Failure.map fun _ => e) := by
  rw [propagate, propagate]
  cases hstep : Transfer.step before insn with
  | error failure => rfl
  | ok after =>
      dsimp only
      cases hsucc : Flow.successors m.instructions pos insn with
      | error e => rfl
      | ok targets =>
          dsimp only
          cases hout : flowOut after s targets with
          | error failure => rfl
          | ok s₁ =>
              have hafter := (hs.fits hbefore).step hstep
              have hmerges := State.merges_of_flowOut hafter
                (Flow.lt_of_mem_successors hsucc) hout
              obtain ⟨-, hgrows, -⟩ :=
                flowOut_spec (stable_true m).join hs hafter (fun t ht =>
                  ⟨Flow.lt_of_mem_successors hsucc t ht, trivial⟩) hout
              obtain ⟨current, hcurrent, -⟩ := hgrows.rises hbefore
              have hs₁ := hmerges.fitting hs
              have hsorted₁ := hmerges.ascending hsorted
              have hhandlers' := htables.target_lt hhandlers
              refine mapError_eq_of_ok_iff ?_ (flowToHandlers_ne_crash _ _ _ _)
                (flowToHandlers_ne_crash _ _ _ _) e
              intro s'
              constructor
              · exact flowToHandlers_congr hs₁ hsorted₁ hcurrent hafter
                  hhandlers hhandlers' htables
              · exact flowToHandlers_congr hs₁ hsorted₁ hcurrent hafter
                  hhandlers' hhandlers htables.symm

/-- A visit leads to the same state with both tables, or fails at the same
place. -/
theorem SameRanges.mapError_visit (hs : Fitting m s) (hsorted : s.Ascending)
    (pos : Nat) :
    (visit m s pos).mapError (Failure.map Malformed.site) =
      (visit { m with handlers := handlers } s pos).mapError
        (Failure.map Malformed.site) := by
  rcases visited_or_skipped m s pos with ⟨insn, before, hinsn, hbefore⟩ | hskip
  · have hsite : ∀ x : Except (Failure Cause) State,
        (x.mapError (Failure.map
          (⟨m.signature, some (pos, insn.opcode), ·⟩))).mapError
            (Failure.map Malformed.site) =
          x.mapError (Failure.map fun _ => some (pos, insn.opcode)) := by
      rintro ((_ | _) | _) <;> rfl
    have hleave : Fitting m (s.leave pos) := Holding.leave hs pos
    have hvisit := visit_of_frame (m := { m with handlers := handlers }) hinsn
      hbefore
    rw [visit_of_frame hinsn hbefore, hvisit, hsite]
    exact (htables.mapError_propagate hhandlers hleave (hsorted.leave pos)
      hbefore _).trans (hsite _).symm
  · rw [visit_of_skip hskip,
      visit_of_skip (m := { m with handlers := handlers }) hskip]

theorem SameRanges.mapError_run (hs : Fitting m s) (hsorted : s.Ascending)
    (visits : Nat) :
    (run m visits s).mapError (Failure.map Malformed.site) =
      (run { m with handlers := handlers } visits s).mapError
        (Failure.map Malformed.site) := by
  have hnext : ∀ {s s' pos}, Fitting m s ∧ s.Ascending → pos ∈ s.pending →
      visit m s pos = .ok s' → Fitting m s' ∧ s'.Ascending := by
    rintro s s' pos ⟨hs, hsorted⟩ - hvisit
    have hmerges := merges_of_visit hs hhandlers hvisit
    exact ⟨hmerges.fitting (Holding.leave hs pos),
      hmerges.ascending (hsorted.leave pos)⟩
  apply Analysis.mapError_run hnext
  · rintro s pos ⟨hs, hsorted⟩ -
    exact htables.mapError_visit hhandlers hs hsorted pos
  · exact ⟨hs, hsorted⟩

end Visits

theorem SameRanges.isSome_badHandler? :
    (badHandler? m).isSome ↔
      (badHandler? { m with handlers := handlers }).isSome := by
  rw [badHandler?, badHandler?, List.find?_isSome, List.find?_isSome]
  apply htables.exists_iff
  intro a b hrange hbad
  obtain ⟨hstart, hstop, htarget⟩ := Handler.range_eq_iff.mp hrange
  rwa [← hstart, ← hstop, ← htarget]

theorem SameRanges.mapError_enter (assumed : Nullability) :
    (enter assumed m).mapError (Failure.map Malformed.site) =
      (enter assumed { m with handlers := handlers }).mapError
        (Failure.map Malformed.site) := by
  have hentry : entryFrame assumed { m with handlers := handlers } =
      entryFrame assumed m :=
    entryFrame_withBody assumed m m.instructions handlers
  have hbad := htables.isSome_badHandler?
  rw [enter, enter, hentry]
  cases hfound : badHandler? m with
  | some h =>
      obtain ⟨h', hfound'⟩ :=
        Option.isSome_iff_exists.mp (hbad.mp (by simp [hfound]))
      rw [hfound']
      rfl
  | none =>
      have hfound' : badHandler? { m with handlers := handlers } = none := by
        simpa [hfound] using hbad
      rw [hfound']
      rfl

/-- The analysis gives the same frames with both tables, or fails at the same
place. -/
theorem SameRanges.mapError_analyze (assumed : Nullability) :
    (analyze assumed m).mapError (Failure.map Malformed.site) =
      (analyze assumed { m with handlers := handlers }).mapError
        (Failure.map Malformed.site) := by
  by_cases hne : m.instructions = []
  · simp [analyze, hne]
  · rw [analyze_eq_bind assumed hne,
      analyze_eq_bind (m := { m with handlers := handlers }) assumed hne]
    rcases mapError_eq_mapError_cases (htables.mapError_enter assumed) with
      ⟨entry, hok, hok'⟩ | ⟨failure, failure', herror, herror', hsite⟩
    · have henters := enters_of_enter hne hok
      have hstart := henters.invariant_start (Q := fun _ _ => True) trivial
      have hruns := htables.mapError_run henters.target_lt hstart.holding
        (List.pairwise_singleton _ _) (visitBound m)
      rw [hok, hok']
      change
        ((run m (visitBound m) (start m entry)).map State.frames).mapError _ =
          ((run { m with handlers := handlers } (visitBound m)
            (start m entry)).map State.frames).mapError _
      rcases mapError_eq_mapError_cases hruns with
        ⟨s, hrun, hrun'⟩ | ⟨failure, failure', herror, herror', hsite⟩
      · rw [hrun, hrun']
      · rw [herror, herror']
        exact congrArg Except.error hsite
    · rw [herror, herror']
      exact congrArg Except.error hsite

end Tables

/-- The exception table is used as a set.  For two tables with the same ranges
and targets, in any order, with any repetitions and with any types, the analysis
returns the same frames, or it fails at the same position and opcode. -/
theorem analyze_uses_handlers_as_set (assumed : Nullability) (m : Method)
    (handlers : List Handler)
    (htables : ∀ range, range ∈ m.handlers.map Handler.range ↔
      range ∈ handlers.map Handler.range) :
    (∃ frames, analyze assumed m = .ok frames ∧
        analyze assumed { m with handlers := handlers } = .ok frames) ∨
      ∃ failure failure', analyze assumed m = .error failure ∧
        analyze assumed { m with handlers := handlers } = .error failure' ∧
        failure.map Malformed.site = failure'.map Malformed.site := by
  have hsame : SameRanges m.handlers handlers := htables
  exact mapError_eq_mapError_cases (hsame.mapError_analyze assumed)

/-- A method that stores a reference.  If that fails it tries again with the
exception that was thrown, or it gives up. -/
def storeAgain (handlers : List Handler) : Method where
  owner := text "Node"
  name := text "store"
  desc := text "(LNode;)V"
  isStatic := true
  maxStack := 1
  maxLocals := 1
  instructions := [
    .plain ⟨1⟩, -- aconst_null
    .var ⟨58⟩ 0, -- astore 0
    .plain ⟨177⟩, -- return
    .plain ⟨87⟩, -- pop
    .plain ⟨177⟩] -- return
  handlers := handlers
  params := [.nonNull]

/-- The tables of two entries in one order, and with a repetition and other
types in the other order. -/
theorem analyze_uses_handlers_as_set_storeAgain :
    let m := storeAgain [⟨1, 2, 1, []⟩, ⟨1, 2, 3, []⟩]
    let handlers : List Handler :=
      [⟨1, 2, 3, text "E"⟩, ⟨1, 2, 1, text "F"⟩, ⟨1, 2, 3, []⟩]
    (∀ range, range ∈ m.handlers.map Handler.range ↔
      range ∈ handlers.map Handler.range) ∧
    ((∃ frames, analyze .unknown m = .ok frames ∧
        analyze .unknown { m with handlers := handlers } = .ok frames) ∨
      ∃ failure failure', analyze .unknown m = .error failure ∧
        analyze .unknown { m with handlers := handlers } = .error failure' ∧
        failure.map Malformed.site = failure'.map Malformed.site) ∧
    ∃ frames, analyze .unknown m = .ok frames := by
  intro m handlers
  have htables : ∀ range, range ∈ m.handlers.map Handler.range ↔
      range ∈ handlers.map Handler.range := by
    intro range
    simp only [m, handlers, storeAgain, Handler.range, List.map_cons,
      List.map_nil, List.mem_cons, List.not_mem_nil, or_false]
    tauto
  refine ⟨htables, analyze_uses_handlers_as_set .unknown m handlers htables, ?_⟩
  exact ⟨#[some ⟨[.nonNull], [], 0, 1⟩, some ⟨[.nullable], [.nullable], 1, 1⟩,
    some ⟨[.nullable], [], 0, 1⟩, some ⟨[.nullable], [.nonNull], 1, 1⟩,
    some ⟨[.nullable], [], 0, 1⟩], by decide +kernel⟩

end Analysis
end Nullness
