import Nullness.Proofs.Schedule

/-!
# Termination of the analysis

The visits of the analysis come to an end because frames only move up.  A merge
that changes a frame raises one of its slots and lowers none, in the order in
which the unwritten content is least, the unusable one is greatest, and values
of one size lie between them as their nullabilities do.  Since a local variable
can rise three times and a stack entry once, this bounds the visits of each
position.
-/

namespace Nullness

/-- One content lies strictly below another one. -/
def Value.Rises (v w : Value) : Prop := v.Below w ∧ ¬w.Below v

/-- In some place, the content of the second list is higher. -/
def SomeRises (vs ws : List Value) : Prop :=
  ∃ (i : Nat) (v w : Value), vs[i]? = some v ∧ ws[i]? = some w ∧ v.Rises w

theorem forall₂_flip_of_not_rises {R : Value → Value → Prop}
    {vs ws : List Value} (hbelow : ∀ {v w}, R v w → v.Below w)
    (hflip : ∀ {v w}, R v w → w.Below v → R w v) (h : List.Forall₂ R vs ws)
    (hnone : ¬SomeRises vs ws) : List.Forall₂ R ws vs := by
  induction h with
  | nil => exact .nil
  | @cons v w vs ws hhead _ ih =>
      have hback : w.Below v := by
        by_contra hnot
        exact hnone ⟨0, v, w, rfl, rfl, hbelow hhead, hnot⟩
      have htail : ¬SomeRises vs ws := by
        rintro ⟨i, v', w', hv', hw', hrises⟩
        exact hnone ⟨i + 1, v', w', hv', hw', hrises⟩
      exact .cons (hflip hhead hback) (ih htail)

namespace Frame

/-- Some slot moves strictly up, and none moves down. -/
structure Rises (f g : Frame) : Prop where
  below : f.Below g
  strict : SomeRises f.locals g.locals ∨ SomeRises f.stack g.stack

variable {m : Method} {f g joined : Frame}

/-- A merge that changes a frame raises it. -/
theorem Fits.rises_of_merge (hf : Fits m f) (hg : Fits m g)
    (h : f.merge g = .ok (joined, true)) : joined.Regular ∧ f.Rises joined := by
  obtain ⟨-, hsizes, rfl, hchanged⟩ := merge_eq_ok_iff.mp h
  have hne : f.join g ≠ f := of_decide_eq_true hchanged.symm
  have hfits := hf.join hg hsizes
  have hbelow := (hf.joinable hg hsizes).below_join_left
  refine ⟨hfits.regular, hbelow, ?_⟩
  -- If no slot rose strictly, the frames would lie below each other.
  by_contra hnone
  rw [not_or] at hnone
  have hback : (f.join g).Below f := by
    constructor
    · exact forall₂_flip_of_not_rises (fun hle => hle) (fun _ hge => hge)
        hbelow.1 hnone.1
    · exact forall₂_flip_of_not_rises (fun hle => hle.2)
        (fun hle hge => ⟨hle.1.symm, hge⟩) hbelow.2 hnone.2
  exact hne (hfits.below_antisymm hf hback hbelow)

end Frame

namespace Analysis

open State (Fitting Merges)

variable {m : Method} {assumed : Nullability} {entry : Frame}
  {s : State} {pos target : Nat} {present incoming : Frame}

/-- The merges that a visit makes: while a position is visited, a frame comes in
at a target and is merged into the one that is present there.  It comes from the
instruction itself, once the targets before this one are done, or from a handler
that protects the instruction, once all targets and the handlers before this one
are done. -/
inductive Merging (m : Method) (s : State) (pos : Nat) :
    Nat → Frame → Frame → Prop
  | next {insn : Instruction} {before after present : Frame}
      {done rest : List Nat} {target : Nat} {s₁ : State}
      (hinsn : m.instructions[pos]? = some insn)
      (hbefore : s.frame? pos = some before)
      (hstep : Transfer.step before insn = .ok after)
      (hsucc : Flow.successors m.instructions pos insn =
        .ok (done ++ target :: rest))
      (hdone : flowOut after (s.leave pos) done = .ok s₁)
      (hpresent : s₁.frame? target = some present) :
      Merging m s pos target present after
  | caught {insn : Instruction} {before after incoming present : Frame}
      {targets : List Nat} {done rest : List Handler} {handler : Handler}
      {s₁ s₂ : State}
      (hinsn : m.instructions[pos]? = some insn)
      (hbefore : s.frame? pos = some before)
      (hstep : Transfer.step before insn = .ok after)
      (hsucc : Flow.successors m.instructions pos insn = .ok targets)
      (hout : flowOut after (s.leave pos) targets = .ok s₁)
      (hhandlers : m.handlers = done ++ handler :: rest)
      (hdone : flowToHandlers pos after s₁ done = .ok s₂)
      (hcovers : handler.covers pos)
      (hincoming : handlerFrame ((s₂.frame? pos).getD after) after =
        .ok incoming)
      (hpresent : s₂.frame? handler.target.toInt.toNat = some present) :
      Merging m s pos handler.target.toInt.toNat present incoming

/-- Both frames of a merge fit the method. -/
theorem Merging.fits (h : Merging m s pos target present incoming)
    (hs : Fitting m s)
    (hhandlers : ∀ h ∈ m.handlers,
      h.target.toInt.toNat < m.instructions.length) :
    Frame.Fits m present ∧ Frame.Fits m incoming := by
  have hleave : Fitting m (s.leave pos) := State.Holding.leave hs pos
  cases h with
  | @next insn before after present done rest target s₁ _ hbefore hstep hsucc
      hdone hpresent =>
      have hafter := (hs.fits hbefore).step hstep
      have hdoneLt : ∀ t ∈ done, t < m.instructions.length := by
        intro t ht
        exact Flow.lt_of_mem_successors hsucc t (by simp [ht])
      have hs₁ : Fitting m s₁ :=
        (State.merges_of_flowOut hafter hdoneLt hdone).fitting hleave
      exact ⟨hs₁.fits hpresent, hafter⟩
  | @caught insn before after incoming present targets done rest handler s₁ s₂
      _ hbefore hstep hsucc hout heq hdone _ hincoming hpresent =>
      have hafter := (hs.fits hbefore).step hstep
      have htargets := Flow.lt_of_mem_successors hsucc
      have hs₁ : Fitting m s₁ :=
        (State.merges_of_flowOut hafter htargets hout).fitting hleave
      have hdoneLt : ∀ h ∈ done,
          h.target.toInt.toNat < m.instructions.length := by
        intro h hmem
        exact hhandlers h (by simp [heq, hmem])
      have hs₂ : Fitting m s₂ :=
        (State.merges_of_flowToHandlers hs₁ hafter hdoneLt hdone).fitting hs₁
      exact ⟨hs₂.fits hpresent,
        fits_of_handlerFrame (hs₂.fits_getD hafter) hafter hincoming⟩

/-- The positions taken from the pending ones so far, the last one first: those
of the visits that are complete, and the one that a visit has just begun
with. -/
inductive Taken (rule : Rule) (m : Method) (entry : Frame) : List Nat → Prop
  | nil : Taken rule m entry []
  | cons {past : List Nat} {s : State} (h : Reached rule m entry past s)
      (hpending : s.pending ≠ []) :
      Taken rule m entry (rule.pick past s :: past)

namespace Taken

variable {rule : Rule} {taken : List Nat}

theorem length_le (h : Taken rule m entry taken)
    (henters : Enters assumed m entry) : taken.length ≤ visitBound m := by
  cases h with
  | nil => exact Nat.zero_le _
  | cons hreached hpending => exact hreached.length_lt henters hpending

theorem count_le (h : Taken rule m entry taken)
    (henters : Enters assumed m entry) (pos : Nat) :
    taken.count pos ≤ Frame.height m + 1 := by
  cases h with
  | nil => exact Nat.zero_le _
  | @cons past s hreached hpending =>
      have hbound := hreached.count_add_dues_le henters pos
      have htaken := State.dues_leave (m := m)
        (rule.pick_mem past s hpending) pos
      have hcount : (rule.pick past s :: past).count pos =
          past.count pos + [rule.pick past s].count pos := by
        simp [List.count_cons]
      omega

end Taken

theorem Enters.height_eq (h : Enters assumed m entry) :
    (Frame.height m : Int) = 3 * m.maxLocals.toInt + m.maxStack.toInt := by
  obtain ⟨hstack, hlocals, -⟩ := entryFrame_eq_ok_iff.mp h.entry_eq
  rw [Frame.height]
  omega

/-- What it means that the visits of the analysis come to an end, and why they
do. -/
structure Terminates (m : Method) (entry : Frame) : Prop where
  /-- There are only so many visits. -/
  length_le : ∀ taken, Taken .lowest m entry taken →
    taken.length ≤ visitBound m
  /-- Each position is visited only so often. -/
  count_le : ∀ taken, Taken .lowest m entry taken → ∀ pos,
    (taken.count pos : Int) ≤ 1 + 3 * m.maxLocals.toInt + m.maxStack.toInt
  /-- The visits that the analysis allows itself lead to the end. -/
  ends : ∃ result, Ends .lowest m entry result ∧
    ∀ visits, visitBound m ≤ visits → run m visits (start m entry) = result
  /-- A merge that changes a frame raises a slot and lowers none. -/
  rises : ∀ past s, Reached .lowest m entry past s → s.pending ≠ [] →
    ∀ target present incoming joined,
      Merging m s (Rule.lowest.pick past s) target present incoming →
      present.merge incoming = .ok (joined, true) →
      present.Regular ∧ joined.Regular ∧ present.Rises joined

theorem analysis_terminates (h : Enters assumed m entry) :
    Terminates m entry where
  length_le taken htaken := htaken.length_le h
  count_le taken htaken pos := by
    have hcount := htaken.count_le h pos
    have hheight := h.height_eq
    omega
  ends := exists_ends_run h
  rises := by
    intro past s hreached _ target present incoming joined hmerging hmerge
    obtain ⟨hpresent, hincoming⟩ :=
      hmerging.fits (hreached.fitting h) h.target_lt
    exact ⟨hpresent.regular, hpresent.rises_of_merge hincoming hmerge⟩

/-- A method that sets its parameter to null and starts again. -/
def resetLoop : Method where
  owner := text "Node"
  name := text "reset"
  desc := text "(LNode;)V"
  isStatic := true
  maxStack := 1
  maxLocals := 1
  instructions := [
    .plain ⟨1⟩, -- aconst_null
    .var ⟨58⟩ 0, -- astore 0
    .jump .goto 0]
  handlers := []
  params := [.nonNull]

/-- The state of its analysis once the first two instructions are visited. -/
def resetLoopState : State where
  frames := #[some ⟨[.nonNull], [], 0, 1⟩, some ⟨[.nonNull], [.null], 1, 1⟩,
    some ⟨[.null], [], 0, 1⟩]
  pending := [2]

theorem reached_resetLoop :
    Reached .lowest resetLoop ⟨[.nonNull], [], 0, 1⟩ [1, 0] resetLoopState := by
  have hfirst : Reached .lowest resetLoop ⟨[.nonNull], [], 0, 1⟩ [0]
      ⟨#[some ⟨[.nonNull], [], 0, 1⟩, some ⟨[.nonNull], [.null], 1, 1⟩, none],
        [1]⟩ :=
    .visit .start (by decide) (by decide +kernel)
  exact .visit hfirst (by decide) (by decide +kernel)

theorem analysis_terminates_resetLoop :
    Enters .unknown resetLoop ⟨[.nonNull], [], 0, 1⟩ ∧
      Terminates resetLoop ⟨[.nonNull], [], 0, 1⟩ ∧
      (⟨[.nonNull], [], 0, 1⟩ : Frame).Rises ⟨[.nullable], [], 0, 1⟩ := by
  have henters : Enters .unknown resetLoop ⟨[.nonNull], [], 0, 1⟩ :=
    ⟨by decide, by decide, by decide +kernel⟩
  have hterminates := analysis_terminates henters
  -- The jump back merges the null parameter into the entry frame.
  have hmerging : Merging resetLoop resetLoopState 2 0
      ⟨[.nonNull], [], 0, 1⟩ ⟨[.null], [], 0, 1⟩ := by
    have hsucc : Flow.successors resetLoop.instructions 2 (.jump .goto 0) =
        .ok ([] ++ 0 :: []) := rfl
    exact .next rfl rfl rfl hsucc rfl rfl
  have hrises := hterminates.rises [1, 0] resetLoopState reached_resetLoop
    (by decide) 0 _ _ ⟨[.nullable], [], 0, 1⟩ hmerging (by decide)
  exact ⟨henters, hterminates, hrises.2.2⟩

end Analysis
end Nullness
