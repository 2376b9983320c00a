import Mathlib.Algebra.Order.BigOperators.Group.Finset
import Nullness.Proofs.Rank

/-!
# Merging frames into a state of the analysis

A visit merges frames into the positions that follow an instruction.  Each merge
moves the frame at one position up, and makes the position pending if that
changes its frame.  Two things are tracked through the merges of a visit.

* `Holding`: a property of frames and positions that joins keep holds of every
  stored frame.
* `Grows`: stored frames only move up, positions stay pending, positions whose
  frame has changed are pending, and the work that is left does not increase.
-/

namespace Nullness

namespace Flow

theorem lt_of_mem_inside {length : Nat} {targets : List Int}
    {positions : List Nat} (h : inside length targets = .ok positions) :
    ∀ pos ∈ positions, pos < length := by
  induction targets generalizing positions with
  | nil =>
      cases h
      simp
  | cons target targets ih =>
      rw [inside] at h
      split_ifs at h with hrange
      split at h
      · cases h
      · rename_i rest hrest
        cases h
        intro pos hmem
        rcases List.mem_cons.mp hmem with rfl | hmem
        · omega
        · exact ih hrest pos hmem

theorem lt_of_mem_next {length pos : Nat} {positions : List Nat}
    (h : next length pos = .ok positions) : ∀ p ∈ positions, p < length := by
  rw [next] at h
  split_ifs at h with hend
  cases h
  intro p hp
  rw [List.mem_singleton.mp hp]
  omega

/-- Every successor of an instruction lies inside the method. -/
theorem lt_of_mem_successors {insns : List Instruction} {pos : Nat}
    {insn : Instruction} {positions : List Nat}
    (h : successors insns pos insn = .ok positions) :
    ∀ p ∈ positions, p < insns.length := by
  unfold successors at h
  dsimp only at h
  split at h
  · split_ifs at h
    · exact lt_of_mem_inside h
    · exact lt_of_mem_inside h
  · split_ifs at h
    exact lt_of_mem_inside h
  · split_ifs at h
    exact lt_of_mem_inside h
  · split_ifs at h
    · exact lt_of_mem_inside h
    · exact lt_of_mem_next h
  · split_ifs at h
    · cases h
      simp
    · exact lt_of_mem_next h
  · exact lt_of_mem_next h

end Flow

namespace Analysis

/-- An assignment of frames gives a position a frame above the given one. -/
def Covered (le : Frame → Frame → Prop) (G : Nat → Option Frame) (pos : Nat)
    (f : Frame) : Prop :=
  ∃ g, G pos = some g ∧ le f g

/-- What is covered stays so while frames move up. -/
theorem Covered.rise {G G' : Nat → Option Frame} {pos : Nat} {f : Frame}
    (h : Covered Frame.Below G pos f)
    (hrises : ∀ {p g}, G p = some g → Covered Frame.Below G' p g) :
    Covered Frame.Below G' pos f := by
  obtain ⟨g, hg, hle⟩ := h
  obtain ⟨g', hg', hle'⟩ := hrises hg
  exact ⟨g', hg', Frame.below_trans hle hle'⟩

theorem Covered.lower {G : Nat → Option Frame} {pos : Nat} {f g : Frame}
    (h : Covered Frame.Below G pos g)
    (hle : f.Below g) : Covered Frame.Below G pos f := by
  obtain ⟨u, hu, hgu⟩ := h
  exact ⟨u, hu, Frame.below_trans hle hgu⟩

namespace State

variable {m : Method} {s s' : State} {pos p : Nat} {f : Frame}

theorem mem_insertPosition {q : Nat} {positions : List Nat} :
    q ∈ insertPosition pos positions ↔ q = pos ∨ q ∈ positions := by
  induction positions with
  | nil => simp [insertPosition]
  | cons r rest ih =>
      rw [insertPosition]
      split_ifs with hlt heq
      · simp
      · subst heq
        simp
      · rw [List.mem_cons, ih, List.mem_cons]
        exact or_left_comm

theorem length_insertPosition_le (pos : Nat) (positions : List Nat) :
    (insertPosition pos positions).length ≤ positions.length + 1 := by
  induction positions with
  | nil => simp [insertPosition]
  | cons r rest ih =>
      rw [insertPosition]
      split_ifs
      · simp
      · simp
      · simpa using ih

theorem frame?_update (hpos : pos < s.frames.size) :
    (s.update pos f).frame? p = if p = pos then some f else s.frame? p := by
  rw [frame?, frame?, update, Array.getElem?_setIfInBounds]
  by_cases hp : p = pos
  · subst hp
    simp [hpos]
  · simp [hp, Ne.symm hp]

/-- The frame that a position has once another frame is merged into it. -/
def absorb (s : State) (pos : Nat) (f : Frame) : Frame :=
  match s.frame? pos with
  | none => f
  | some g => g.join f

theorem absorb_of_none (h : s.frame? pos = none) : s.absorb pos f = f := by
  rw [absorb, h]

theorem absorb_of_some {g : Frame} (h : s.frame? pos = some g) :
    s.absorb pos f = g.join f := by
  rw [absorb, h]

/-- Everything that a merge into a position does: the frames have one shape, and
the position takes the joined frame and becomes pending if that is a change. -/
theorem flow_eq_ok (h : s.flow pos f = .ok s') :
    (∀ g, s.frame? pos = some g →
      g.stack.map (·.size) = f.stack.map (·.size)) ∧
      s' = if s.frame? pos = some (s.absorb pos f) then s
        else s.update pos (s.absorb pos f) := by
  rw [flow] at h
  cases hframe : s.frame? pos with
  | none =>
      rw [hframe] at h
      cases h
      rw [absorb_of_none hframe]
      exact ⟨by simp, by simp⟩
  | some g =>
      rw [hframe] at h
      dsimp only at h
      split at h
      · cases h
      · rename_i merged changed hmerge
        cases h
        obtain ⟨-, hsizes, rfl, rfl⟩ := Frame.merge_eq_ok_iff.mp hmerge
        refine ⟨?_, ?_⟩
        · rintro g' heq
          cases heq
          exact hsizes
        · rw [absorb_of_some hframe]
          by_cases hsame : g.join f = g
          · simp [hsame]
          · simp [hsame, Ne.symm hsame]

theorem frame?_flow (hpos : pos < s.frames.size) (h : s.flow pos f = .ok s') :
    s'.frame? p = if p = pos then some (s.absorb pos f) else s.frame? p := by
  obtain ⟨-, rfl⟩ := flow_eq_ok h
  split_ifs with hsame hp hp
  · rw [hp, hsame]
  · rfl
  · rw [frame?_update hpos, if_pos hp]
  · rw [frame?_update hpos, if_neg hp]

/-- A state with a place for each instruction, whose frames fit the method and
have a property that may depend on the position. -/
structure Holding (m : Method) (Q : Nat → Frame → Prop) (s : State) : Prop where
  size_eq : s.frames.size = m.instructions.length
  fits : ∀ {pos f}, s.frame? pos = some f → Frame.Fits m f
  holds : ∀ {pos f}, s.frame? pos = some f → Q pos f

/-- A property of frames and positions that is kept by joins. -/
def JoinClosed (m : Method) (Q : Nat → Frame → Prop) : Prop :=
  ∀ (pos : Nat) (f g : Frame), Frame.Fits m f → Frame.Fits m g →
    f.stack.map (·.size) = g.stack.map (·.size) → Q pos f → Q pos g →
      Q pos (f.join g)

/-- How many more times the frame at a position can change. -/
def slack (m : Method) : Option Frame → Nat
  | none => Frame.height m + 1
  | some f => Frame.height m - f.rank

/-- How many visits are left at most: one for each pending position, and one for
each further change of a frame. -/
def work (m : Method) (s : State) : Nat :=
  ∑ pos ∈ Finset.range m.instructions.length, slack m (s.frame? pos)
    + s.pending.length

/-- What merges do to a state. -/
structure Grows (m : Method) (s s' : State) : Prop where
  pending : ∀ {pos}, pos ∈ s.pending → pos ∈ s'.pending
  rises : ∀ {pos f}, s.frame? pos = some f →
    Covered Frame.Below s'.frame? pos f
  settled : ∀ {pos}, pos ∉ s'.pending → s'.frame? pos = s.frame? pos
  work_le : s'.work m ≤ s.work m

theorem Grows.refl (m : Method) (s : State) : Grows m s s :=
  ⟨id, fun h => ⟨_, h, Frame.below_refl _⟩, fun _ => rfl, Nat.le_refl _⟩

theorem Grows.trans {s'' : State} (h : Grows m s s') (h' : Grows m s' s'') :
    Grows m s s'' where
  pending hp := h'.pending (h.pending hp)
  rises hf := (h.rises hf).rise h'.rises
  settled hp := by
    rw [h'.settled hp, h.settled fun hp' => hp (h'.pending hp')]
  work_le := Nat.le_trans h'.work_le h.work_le

/-- The frame of a position that is not pending in the end has not changed. -/
theorem Grows.frame_eq {f' : Frame} (h : Grows m s s')
    (hf : s.frame? pos = some f) (hf' : s'.frame? pos = some f')
    (hpos : pos ∉ s'.pending) : f' = f := by
  have hkept := h.settled hpos
  rw [hf, hf', Option.some.injEq] at hkept
  exact hkept

variable {Q : Nat → Frame → Prop}

section Merge

variable (hs : Holding m Q s) (hf : Frame.Fits m f)
  (hsizes : ∀ g, s.frame? pos = some g →
    g.stack.map (·.size) = f.stack.map (·.size))

include hs hf hsizes

/-- Frames of one shape can be merged. -/
theorem Holding.flow_eq :
    s.flow pos f = .ok (if s.frame? pos = some (s.absorb pos f) then s
      else s.update pos (s.absorb pos f)) := by
  cases hflow : s.flow pos f with
  | ok s' => rw [(flow_eq_ok hflow).2]
  | error e =>
      rw [flow] at hflow
      cases hframe : s.frame? pos with
      | none =>
          rw [hframe] at hflow
          cases hflow
      | some g =>
          have hlength : g.locals.length = f.locals.length :=
            (hs.fits hframe).length_locals.trans hf.length_locals.symm
          have hmerge : g.merge f = .ok (g.join f, decide (g.join f ≠ g)) :=
            Frame.merge_eq_ok_iff.mpr ⟨hlength, hsizes g hframe, rfl, rfl⟩
          rw [hframe] at hflow
          dsimp only at hflow
          rw [hmerge] at hflow
          cases hflow

theorem Holding.fits_absorb : Frame.Fits m (s.absorb pos f) := by
  cases hframe : s.frame? pos with
  | none => rwa [absorb_of_none hframe]
  | some g =>
      rw [absorb_of_some hframe]
      exact (hs.fits hframe).join hf (hsizes g hframe)

theorem Holding.below_absorb : f.Below (s.absorb pos f) := by
  cases hframe : s.frame? pos with
  | none =>
      rw [absorb_of_none hframe]
      exact Frame.below_refl f
  | some g =>
      rw [absorb_of_some hframe]
      exact ((hs.fits hframe).joinable hf (hsizes g hframe)).below_join_right

theorem Holding.slack_absorb_lt
    (hne : s.frame? pos ≠ some (s.absorb pos f)) :
    slack m (some (s.absorb pos f)) < slack m (s.frame? pos) := by
  have hbound := (hs.fits_absorb hf hsizes).rank_le
  cases hframe : s.frame? pos with
  | none =>
      rw [slack, slack]
      omega
  | some g =>
      rw [absorb_of_some hframe] at hne hbound ⊢
      rw [hframe, Ne, Option.some.injEq, eq_comm] at hne
      have hlt := (hs.fits hframe).rank_lt_join hf (hsizes g hframe) hne
      rw [slack, slack]
      omega

theorem Holding.work_update_le (hpos : pos < m.instructions.length)
    (hne : s.frame? pos ≠ some (s.absorb pos f)) :
    (s.update pos (s.absorb pos f)).work m ≤ s.work m := by
  have hframe : ∀ p, (s.update pos (s.absorb pos f)).frame? p =
      if p = pos then some (s.absorb pos f) else s.frame? p :=
    fun p => frame?_update (hs.size_eq ▸ hpos)
  have hlt : slack m (some (s.absorb pos f)) < slack m (s.frame? pos) :=
    hs.slack_absorb_lt hf hsizes hne
  have hsum :
      ∑ p ∈ Finset.range m.instructions.length,
          slack m ((s.update pos (s.absorb pos f)).frame? p) <
        ∑ p ∈ Finset.range m.instructions.length, slack m (s.frame? p) := by
    refine Finset.sum_lt_sum ?_ ⟨pos, Finset.mem_range.mpr hpos, ?_⟩
    · intro p _
      rw [hframe p]
      split_ifs with hp
      · rw [hp]
        exact Nat.le_of_lt hlt
      · exact Nat.le_refl _
    · rw [hframe pos, if_pos rfl]
      exact hlt
  have hlength := length_insertPosition_le pos s.pending
  rw [work, work]
  change _ + (insertPosition pos s.pending).length ≤ _
  omega

end Merge

/-! ## One merge -/

section Flow

variable (hs : Holding m Q s) (hpos : pos < m.instructions.length)
  (hf : Frame.Fits m f) (h : s.flow pos f = .ok s')

include hs hpos hf h

/-- A merge keeps a property that joins keep. -/
theorem Holding.flow (hQ : JoinClosed m Q) (hQf : Q pos f) :
    Holding m Q s' := by
  obtain ⟨hsizes, hs'⟩ := flow_eq_ok h
  have hframe : ∀ p, s'.frame? p =
      if p = pos then some (s.absorb pos f) else s.frame? p :=
    fun p => frame?_flow (hs.size_eq ▸ hpos) h
  refine ⟨?_, ?_, ?_⟩
  · rw [hs']
    split_ifs
    · exact hs.size_eq
    · rw [update, Array.size_setIfInBounds, hs.size_eq]
  · intro p g hg
    rw [hframe p] at hg
    split_ifs at hg
    · cases hg
      exact hs.fits_absorb hf hsizes
    · exact hs.fits hg
  · intro p g hg
    rw [hframe p] at hg
    split_ifs at hg with hp
    · cases hg
      subst hp
      cases hold : s.frame? p with
      | none => rwa [absorb_of_none hold]
      | some g =>
          rw [absorb_of_some hold]
          exact hQ p g f (hs.fits hold) hf (hsizes g hold) (hs.holds hold) hQf
    · exact hs.holds hg

theorem Holding.grows_of_flow : Grows m s s' := by
  obtain ⟨hsizes, hs'⟩ := flow_eq_ok h
  have hbound : pos < s.frames.size := hs.size_eq ▸ hpos
  constructor
  · intro p hp
    rw [hs']
    split_ifs
    · exact hp
    · exact mem_insertPosition.mpr (Or.inr hp)
  · intro p g hg
    rw [Covered, frame?_flow hbound h]
    split_ifs with hp
    · subst hp
      refine ⟨s.absorb p f, rfl, ?_⟩
      rw [absorb_of_some hg]
      exact ((hs.fits hg).joinable hf (hsizes g hg)).below_join_left
    · exact ⟨g, hg, Frame.below_refl g⟩
  · intro p hp
    rw [hs'] at hp ⊢
    split_ifs at hp ⊢
    · rfl
    · have hne : p ≠ pos := fun heq => hp (mem_insertPosition.mpr (Or.inl heq))
      rw [frame?_update hbound, if_neg hne]
  · rw [hs']
    split_ifs with hsame
    · exact Nat.le_refl _
    · exact hs.work_update_le hf hsizes hpos hsame

/-- What is merged into a position lies below the frame that the position then
has. -/
theorem Holding.covered_of_flow : Covered Frame.Below s'.frame? pos f := by
  obtain ⟨hsizes, -⟩ := flow_eq_ok h
  refine ⟨s.absorb pos f, ?_, hs.below_absorb hf hsizes⟩
  rw [frame?_flow (hs.size_eq ▸ hpos) h, if_pos rfl]

end Flow

/-! ## Taking a position from the pending ones -/

/-- The state in which a position has been taken from the pending ones. -/
def leave (s : State) (pos : Nat) : State :=
  { s with pending := s.pending.erase pos }

@[simp] theorem frame?_leave (s : State) (pos : Nat) :
    (s.leave pos).frame? = s.frame? := rfl

theorem not_mem_pending_of_leave (hne : p ≠ pos)
    (hp : p ∉ (s.leave pos).pending) : p ∉ s.pending := by
  intro hmem
  exact hp ((List.mem_erase_of_ne hne).mpr hmem)

theorem work_leave_lt (hpos : pos ∈ s.pending) :
    (s.leave pos).work m < s.work m := by
  have hlength : (s.leave pos).pending.length + 1 = s.pending.length :=
    List.length_erase_add_one hpos
  rw [work, work, frame?_leave]
  omega

theorem Holding.leave (hs : Holding m Q s) (pos : Nat) :
    Holding m Q (s.leave pos) :=
  ⟨hs.size_eq, hs.fits, hs.holds⟩

end State
end Analysis
end Nullness
