import Nullness.Proofs.Handler

/-!
# How often a frame can move up

Merging moves the contents of slots up in their order, and the chains of that
order are short: a local variable goes from unwritten over a known value and a
value that may be null to unusable, and a stack entry can only become a value
that may be null.  The rank of a frame counts the moves that its slots have
made.  It grows strictly with every merge that changes the frame, and is bounded
by the declared bounds of the method.
-/

namespace Nullness

namespace Value

/-- How far up the content of a local variable is. -/
def rank (v : Value) : Nat :=
  if v.isConflict then 3
  else if v.isEmpty then 0
  else if v.nullability = .nullable then 2
  else 1

/-- How far up a stack entry is. -/
def entryRank (v : Value) : Nat :=
  if v.nullability = .nullable then 1 else 0

theorem rank_le (v : Value) : v.rank ≤ 3 := by
  rw [rank]
  split_ifs <;> omega

theorem entryRank_le (v : Value) : v.entryRank ≤ 1 := by
  rw [entryRank]
  split_ifs <;> omega

theorem rank_conflict : conflict.rank = 3 := by decide

theorem rank_empty : empty.rank = 0 := by decide

theorem Known.rank_eq {v : Value} (hv : v.Known) :
    v.rank = v.entryRank + 1 := by
  rw [rank, entryRank, hv.isConflict_eq_false, hv.isEmpty_eq_false]
  split_ifs <;> simp_all

/-- Merging known values of one size keeps the first or raises it. -/
theorem Known.merge_eq_or_entryRank_lt {v w : Value} (hv : v.Known)
    (hw : w.Known) (hsize : v.size = w.size) :
    v.merge w = v ∨ v.entryRank < (v.merge w).entryRank := by
  rw [hv.merge_of_size_eq hw hsize]
  by_cases heq : v.nullability = w.nullability
  · left
    rw [Nullability.merge, if_pos heq]
  · have hmerge : v.nullability.merge w.nullability = .nullable := by
      simp [Nullability.merge, heq, hv.1, hw.1]
    rw [hmerge]
    by_cases hnullable : v.nullability = .nullable
    · left
      rw [← hnullable]
    · right
      simp [entryRank, hnullable]

/-- Merging into a local variable keeps its content or raises it. -/
theorem Regular.merge_eq_or_rank_lt {v w : Value} (hv : v.Regular)
    (hw : w.Regular) : v.merge w = v ∨ v.rank < (v.merge w).rank := by
  rcases hv with rfl | rfl | hv
  · rw [hw.empty_merge, rank_empty]
    rcases hw with rfl | rfl | hw
    · exact Or.inl rfl
    · exact Or.inr (by rw [rank_conflict]; omega)
    · exact Or.inr (by rw [hw.rank_eq]; omega)
  · exact Or.inl (conflict_merge w)
  · have hbound := hv.rank_eq
    have hentry := entryRank_le v
    rcases hw with rfl | rfl | hw
    · exact Or.inl hv.regular.merge_empty
    · right
      rw [merge_conflict, rank_conflict]
      omega
    · by_cases hsize : v.size = w.size
      · rcases hv.merge_eq_or_entryRank_lt hw hsize with h | h
        · exact Or.inl h
        · right
          rw [(hv.merge hw hsize).rank_eq]
          omega
      · right
        rw [hv.merge_of_size_ne hw hsize, rank_conflict]
        omega

end Value

theorem zipWith_merge_eq_or_sum_lt {S : Value → Value → Prop}
    {r : Value → Nat} {vs ws : List Value} (h : List.Forall₂ S vs ws)
    (hr : ∀ v w, S v w → v.merge w = v ∨ r v < r (v.merge w)) :
    List.zipWith Value.merge vs ws = vs ∨
      (vs.map r).sum < ((List.zipWith Value.merge vs ws).map r).sum := by
  induction h with
  | nil => exact Or.inl rfl
  | @cons v w vs ws hvw _ ih =>
      rw [List.zipWith_cons_cons, List.map_cons, List.map_cons, List.sum_cons,
        List.sum_cons]
      rcases hr v w hvw with hhead | hhead
      · rw [hhead]
        rcases ih with htail | htail
        · exact Or.inl (by rw [htail])
        · exact Or.inr (by omega)
      · right
        rcases ih with htail | htail
        · rw [htail]
          omega
        · omega

theorem sum_map_le {r : Value → Nat} {bound : Nat}
    (hr : ∀ v, r v ≤ bound) (vs : List Value) :
    (vs.map r).sum ≤ bound * vs.length := by
  induction vs with
  | nil => simp
  | cons v vs ih =>
      have hv := hr v
      rw [List.map_cons, List.sum_cons, List.length_cons, Nat.mul_succ]
      omega

theorem length_le_slotCount {vs : List Value} (h : ∀ v ∈ vs, v.Known) :
    vs.length ≤ slotCount vs := by
  induction vs with
  | nil => simp
  | cons v vs ih =>
      have htail := ih fun w hw => h w (by simp [hw])
      have hhead : 1 ≤ v.size.toNat := by
        rcases (h v (by simp)).2 with hsize | hsize <;> rw [hsize] <;> decide
      rw [List.length_cons, slotCount_cons]
      omega

namespace Frame

/-- How far up the slots of a frame are, all together. -/
def rank (f : Frame) : Nat :=
  (f.locals.map Value.rank).sum + (f.stack.map Value.entryRank).sum

/-- No frame that fits a method has a higher rank. -/
def height (m : Method) : Nat :=
  3 * m.maxLocals.toInt.toNat + m.maxStack.toInt.toNat

variable {m : Method} {f g : Frame}

theorem Fits.rank_le (hf : Fits m f) : f.rank ≤ height m := by
  have hlocals := sum_map_le Value.rank_le f.locals
  have hstack := sum_map_le Value.entryRank_le f.stack
  have hlength : f.stack.length ≤ m.maxStack.toInt.toNat := by
    calc f.stack.length
        ≤ slotCount f.stack := length_le_slotCount hf.sound.slots.stack
      _ = f.slots := hf.sound.counted.slots_eq.symm
      _ ≤ f.maxStack := hf.sound.counted.slots_le
      _ = m.maxStack.toInt.toNat := hf.maxStack_eq
  rw [hf.length_locals] at hlocals
  rw [rank, height]
  omega

/-- A merge that changes a frame raises its rank. -/
theorem Fits.rank_lt_join (hf : Fits m f) (hg : Fits m g)
    (hsizes : f.stack.map (·.size) = g.stack.map (·.size))
    (hne : f.join g ≠ f) : f.rank < (f.join g).rank := by
  have hlocals := zipWith_merge_eq_or_sum_lt (hf.joinable hg hsizes).1
    (fun v w h => h.1.merge_eq_or_rank_lt h.2)
  have hstack := zipWith_merge_eq_or_sum_lt (hf.forall₂_known hg hsizes)
    (fun v w h => h.2.1.merge_eq_or_entryRank_lt h.2.2 h.1)
  rw [rank, rank]
  rcases hlocals with hlocals | hlocals
  · rcases hstack with hstack | hstack
    · refine absurd ?_ hne
      rw [Frame.join, hlocals, hstack]
    · have hkeep : (f.join g).locals = f.locals := hlocals
      rw [hkeep]
      exact Nat.add_lt_add_left hstack _
  · refine Nat.add_lt_add_of_lt_of_le hlocals ?_
    rcases hstack with hstack | hstack
    · have hkeep : (f.join g).stack = f.stack := hstack
      exact Nat.le_of_eq (by rw [hkeep])
    · exact Nat.le_of_lt hstack

end Frame
end Nullness
