import Nullness.Analysis.Basic
import Nullness.Proofs.Entry

/-!
# Joins of frames that fit a method, and caught exceptions

The frames that the analysis of a method stores all have the declared bounds and
the same invariant, and their joins have them too.  The frame that flows into an
exception handler is such a join: of the states before and after the protected
instruction, once their stacks are replaced by the caught exception.
-/

namespace Nullness

namespace Frame

variable {m : Method} {f g : Frame} {insn : Instruction}

theorem Fits.regular (hf : Fits m f) : f.Regular := hf.sound.regular

theorem Fits.step {after : Frame} (hf : Fits m f)
    (h : Transfer.step f insn = .ok after) : Fits m after := by
  have hrelaxed := Transfer.relaxedStep_of_step h
  refine ⟨hf.sound.step h, ?_, ?_⟩
  · rw [Transfer.length_locals_of_relaxedStep hrelaxed, hf.length_locals]
  · rw [Transfer.maxStack_of_relaxedStep hrelaxed, hf.maxStack_eq]

theorem Fits.joinable (hf : Fits m f) (hg : Fits m g)
    (hsizes : f.stack.map (·.size) = g.stack.map (·.size)) : f.Joinable g :=
  joinable_of_regular hf.regular hg.regular
    (hf.length_locals.trans hg.length_locals.symm) hsizes

theorem Fits.forall₂_known (hf : Fits m f) (hg : Fits m g)
    (hsizes : f.stack.map (·.size) = g.stack.map (·.size)) :
    List.Forall₂ (fun v w : Value => v.size = w.size ∧ v.Known ∧ w.Known)
      f.stack g.stack :=
  forall₂_and_of_mem (forall₂_size_eq_iff.mpr hsizes) hf.sound.slots.stack
    hg.sound.slots.stack

/-- Frames that fit a method and have stacks of one shape join to such a
frame. -/
theorem Fits.join (hf : Fits m f) (hg : Fits m g)
    (hsizes : f.stack.map (·.size) = g.stack.map (·.size)) :
    Fits m (f.join g) := by
  have hjoinable := hf.joinable hg hsizes
  have hcount : slotCount (f.join g).stack = slotCount f.stack :=
    slotCount_eq_of_sizes hjoinable.below_join_left.sizes_eq.symm
  refine ⟨⟨⟨?_, hf.sound.counted.slots_le⟩, ?_, ?_⟩, ?_, hf.maxStack_eq⟩
  · rw [hcount]
    exact hf.sound.counted.slots_eq
  · exact hjoinable.regular_join.1
  · refine zipWith_merge_holds (hf.forall₂_known hg hsizes) ?_
    rintro v w ⟨hsize, hv, hw⟩
    exact hv.merge hw hsize
  · have hlength : (f.join g).locals.length = f.locals.length :=
      hjoinable.below_join_left.1.length_eq.symm
    rw [hlength, hf.length_locals]

/-- Two frames that fit a method and lie below each other are equal. -/
theorem Fits.below_antisymm (hf : Fits m f) (hg : Fits m g) (hfg : f.Below g)
    (hgf : g.Below f) : f = g := by
  have hlocals : f.locals = g.locals := by
    refine List.ext_getElem hfg.1.length_eq fun i hi hi' => ?_
    exact (hf.regular.1 _ (List.getElem_mem hi)).below_antisymm
      (hg.regular.1 _ (List.getElem_mem hi')) (hfg.1.get hi hi')
      (hgf.1.get hi' hi)
  have hstack : f.stack = g.stack := by
    refine List.ext_getElem hfg.2.length_eq fun i hi hi' => ?_
    exact (hf.regular.2 _ (List.getElem_mem hi)).below_antisymm
      (hg.regular.2 _ (List.getElem_mem hi')) (hfg.2.get hi hi').2
      (hgf.2.get hi' hi).2
  have hslots : f.slots = g.slots := by
    rw [hf.sound.counted.slots_eq, hg.sound.counted.slots_eq, hstack]
  have hmax : f.maxStack = g.maxStack := by
    rw [hf.maxStack_eq, hg.maxStack_eq]
  cases f
  cases g
  simp_all

/-- Joining a frame with a lower one changes nothing. -/
theorem Fits.join_eq_of_below (hf : Fits m f) (hg : Fits m g) (h : g.Below f) :
    f.join g = f := by
  have hsizes := h.sizes_eq.symm
  have hjoinable := hf.joinable hg hsizes
  exact (hf.join hg hsizes).below_antisymm hf
    (hjoinable.join_below (below_refl f) h) hjoinable.below_join_left

/-- The frame in which an exception thrown in another frame is caught: the local
variables stay, and the stack holds the exception alone. -/
def caught (f : Frame) : Frame :=
  { f with stack := [.nonNull], slots := 1 }

end Frame

/-- The caught exception is a value that instructions leave too, so every slot
invariant allows it. -/
theorem SlotInvariant.Holds.caught {I : SlotInvariant} {f : Frame}
    (hf : I.Holds f) : I.Holds f.caught := by
  refine ⟨hf.locals, ?_⟩
  intro v hv
  rw [List.mem_singleton.mp hv]
  exact I.constant Value.produced_nonNull

namespace Frame

variable {m : Method} {f g : Frame}

theorem Regular.caught (hf : f.Regular) : f.caught.Regular := by
  have hholds : SlotInvariant.regular.Holds f := ⟨hf.1, hf.2⟩
  exact ⟨hholds.caught.locals, hholds.caught.stack⟩

theorem Fits.caught (hf : Fits m f) (hroom : 0 < f.maxStack) :
    Fits m f.caught :=
  ⟨⟨⟨rfl, hroom⟩, hf.sound.slots.caught⟩, hf.length_locals, hf.maxStack_eq⟩

/-- A stack of one slot is enough for the frame of a handler. -/
theorem Fits.join_caught (hf : Fits m f) (hg : Fits m g)
    (hroom : 0 < m.maxStack.toInt.toNat) : Fits m (f.caught.join g.caught) := by
  have hcaught : Fits m f.caught := hf.caught (hf.maxStack_eq ▸ hroom)
  exact hcaught.join (hg.caught (hg.maxStack_eq ▸ hroom)) rfl

theorem Below.caught (h : f.Below g) : f.caught.Below g.caught :=
  ⟨h.1, .cons ⟨rfl, Value.below_refl _⟩ .nil⟩

/-- A caught exception can be pushed exactly if the stack may take a slot. -/
theorem push_nonNull_clearStack (f : Frame) :
    push .nonNull f.clearStack =
      if 0 < f.maxStack then .ok () f.caught
      else .error (.error (.stackOverflow f.maxStack)) f.clearStack := by
  have hone : f.clearStack.slots + Value.nonNull.size.toNat = 1 := rfl
  rw [push_of_stackable (Or.inl rfl), hone]
  rfl

end Frame

namespace Analysis

variable {m : Method} {before after f : Frame}

/-- What flows into a handler is the join of the states before and after the
instruction, both with the caught exception on the stack. -/
theorem handlerFrame_eq_ok_iff :
    handlerFrame before after = .ok f ↔
      before.locals.length = after.locals.length ∧ 0 < before.maxStack ∧
        f = before.caught.join after.caught := by
  rw [handlerFrame]
  cases hmerge : before.clearStack.merge after.clearStack with
  | error e =>
      refine iff_of_false (by simp) ?_
      intro h
      have hok : before.clearStack.merge after.clearStack =
          .ok (before.clearStack.join after.clearStack, _) :=
        Frame.merge_eq_ok_iff.mpr ⟨h.1, rfl, rfl, rfl⟩
      rw [hmerge] at hok
      cases hok
  | ok result =>
      obtain ⟨joined, changed⟩ := result
      obtain ⟨hlen, -, rfl, -⟩ := Frame.merge_eq_ok_iff.mp hmerge
      have hcleared : before.clearStack.join after.clearStack =
          (before.clearStack.join after.clearStack).clearStack := rfl
      have hcaught : (before.clearStack.join after.clearStack).caught =
          before.caught.join after.caught := by
        simp [Frame.join, Frame.caught, Frame.clearStack]
      have hmax : (before.clearStack.join after.clearStack).maxStack =
          before.maxStack := rfl
      dsimp only
      rw [hcleared, Frame.push_nonNull_clearStack, hcaught, hmax]
      by_cases hroom : 0 < before.maxStack
      · rw [if_pos hroom]
        constructor
        · intro h
          cases h
          exact ⟨hlen, hroom, rfl⟩
        · rintro ⟨-, -, rfl⟩
          rfl
      · rw [if_neg hroom]
        exact iff_of_false (by simp) fun h => hroom h.2.1

/-- Between frames that fit a method, a handler can be entered exactly if the
method has a stack. -/
theorem handlerFrame_eq_ok_iff_of_fits (hbefore : Frame.Fits m before)
    (hafter : Frame.Fits m after) :
    handlerFrame before after = .ok f ↔
      0 < m.maxStack.toInt.toNat ∧ f = before.caught.join after.caught := by
  have hlength := hbefore.length_locals.trans hafter.length_locals.symm
  rw [handlerFrame_eq_ok_iff, and_iff_right hlength, hbefore.maxStack_eq]

theorem fits_of_handlerFrame (hbefore : Frame.Fits m before)
    (hafter : Frame.Fits m after) (h : handlerFrame before after = .ok f) :
    Frame.Fits m f := by
  obtain ⟨hroom, rfl⟩ := (handlerFrame_eq_ok_iff_of_fits hbefore hafter).mp h
  exact hbefore.join_caught hafter hroom

theorem joinable_caught (hbefore : before.Regular) (hafter : after.Regular)
    (h : handlerFrame before after = .ok f) :
    before.caught.Joinable after.caught :=
  Frame.joinable_of_regular hbefore.caught hafter.caught
    (handlerFrame_eq_ok_iff.mp h).1 rfl

theorem regular_of_handlerFrame (hbefore : before.Regular)
    (hafter : after.Regular) (h : handlerFrame before after = .ok f) :
    f.Regular := by
  have hjoinable := joinable_caught hbefore hafter h
  obtain ⟨-, -, rfl⟩ := handlerFrame_eq_ok_iff.mp h
  exact hjoinable.regular_join

/-- The handler's frame covers an exception thrown before the instruction has
changed the local variables. -/
theorem caught_before_below (hbefore : before.Regular) (hafter : after.Regular)
    (h : handlerFrame before after = .ok f) : before.caught.Below f := by
  have hjoinable := joinable_caught hbefore hafter h
  obtain ⟨-, -, rfl⟩ := handlerFrame_eq_ok_iff.mp h
  exact hjoinable.below_join_left

/-- The handler's frame covers an exception thrown after the instruction has
changed the local variables. -/
theorem caught_after_below (hbefore : before.Regular) (hafter : after.Regular)
    (h : handlerFrame before after = .ok f) : after.caught.Below f := by
  have hjoinable := joinable_caught hbefore hafter h
  obtain ⟨-, -, rfl⟩ := handlerFrame_eq_ok_iff.mp h
  exact hjoinable.below_join_right

/-- The handler's frame moves up with the states before and after. -/
theorem handlerFrame_below {before' after' f' : Frame}
    (hbefore : before.Regular) (hafter : after.Regular)
    (hbefore' : before'.Regular) (hafter' : after'.Regular)
    (hle : before.Below before') (hle' : after.Below after')
    (h : handlerFrame before after = .ok f)
    (h' : handlerFrame before' after' = .ok f') : f.Below f' := by
  have hjoinable := joinable_caught hbefore hafter h
  obtain ⟨-, -, rfl⟩ := handlerFrame_eq_ok_iff.mp h
  refine hjoinable.join_below ?_ ?_
  · exact Frame.below_trans hle.caught
      (caught_before_below hbefore' hafter' h')
  · exact Frame.below_trans hle'.caught
      (caught_after_below hbefore' hafter' h')

end Analysis
end Nullness
