import Mathlib.Data.List.Forall2
import Nullness.Value

/-!
# The order of slot contents

Merging two contents of a slot is the join of an order, as long as both are
contents that a slot of a frame really has.  Such contents are called regular:
unwritten, unusable, or a value of one or two slots whose nullability is known.
Raw values outside this set break the laws; a value of two slots and unknown
nullability counts as unwritten, but is not the unwritten content itself.

Two orders appear.  `Le` reads the order off the merge.  `Below` says the same
structurally, and in addition places a value of unknown nullability below the
known values of its size only, which is what a local variable needs that was
copied before it was set.  They agree on regular contents.
-/

namespace Nullness

namespace Nullability

@[simp] theorem nullable_ne_unknown : nullable ≠ unknown := by decide

@[simp] theorem nonNull_ne_unknown : nonNull ≠ unknown := by decide

/-- Two different nullabilities are ordered only next to the least or the
greatest one. -/
theorem le_iff {a b : Nullability} :
    a.le b ↔ a = b ∨ a = .unknown ∨ b = .nullable := by
  unfold le merge
  by_cases hab : a = b
  · simp [hab]
  · by_cases ha : a = .unknown
    · simp [ha]
    · by_cases hb : b = .unknown
      · simp [ha, hb, nullable_ne_unknown.symm]
      · simp [hab, ha, hb, eq_comm]

theorem le_refl (a : Nullability) : a.le a :=
  le_iff.mpr (Or.inl rfl)

theorem le_trans {a b c : Nullability} (hab : a.le b) (hbc : b.le c) :
    a.le c := by
  rw [le_iff] at *
  rcases hab with rfl | rfl | rfl
  · exact hbc
  · exact Or.inr (Or.inl rfl)
  · rcases hbc with rfl | h | rfl
    · exact Or.inr (Or.inr rfl)
    · exact absurd h nullable_ne_unknown
    · exact Or.inr (Or.inr rfl)

theorem le_merge_left (a b : Nullability) : a.le (a.merge b) := by
  rw [le_iff, merge]
  split_ifs <;> simp_all

theorem le_merge_right (a b : Nullability) : b.le (a.merge b) := by
  rw [le_iff, merge]
  split_ifs <;> simp_all

theorem merge_le {a b c : Nullability} (ha : a.le c) (hb : b.le c) :
    (a.merge b).le c := by
  rw [merge]
  split_ifs with hab ha' hb'
  · exact ha
  · exact hb
  · exact ha
  · rw [le_iff] at *
    rcases ha with rfl | h | rfl
    · rcases hb with rfl | h | rfl
      · exact absurd rfl hab
      · exact absurd h hb'
      · exact Or.inl rfl
    · exact absurd h ha'
    · exact Or.inl rfl

theorem merge_comm (a b : Nullability) : a.merge b = b.merge a := by
  rw [merge, merge]
  split_ifs <;> simp_all

/-- What is known about one of two values stays known about their merge. -/
theorem merge_ne_unknown {a b : Nullability} (ha : a ≠ .unknown) :
    a.merge b ≠ .unknown := by
  rw [merge]
  split_ifs <;> simp_all

end Nullability

namespace Value

/-- A value of one or two slots whose nullability is known. -/
def Known (v : Value) : Prop :=
  v.nullability ≠ .unknown ∧ (v.size = 1 ∨ v.size = 2)

/-- A content that a slot of a frame can have. -/
def Regular (v : Value) : Prop :=
  v = empty ∨ v = conflict ∨ v.Known

/-- The order that merging induces. -/
def Le (v w : Value) : Prop := v.merge w = w

instance (v : Value) : Decidable v.Known :=
  inferInstanceAs
    (Decidable (v.nullability ≠ .unknown ∧ (v.size = 1 ∨ v.size = 2)))

instance (v : Value) : Decidable v.Regular :=
  inferInstanceAs (Decidable (v = empty ∨ v = conflict ∨ v.Known))

instance (v w : Value) : Decidable (v.Le w) :=
  inferInstanceAs (Decidable (v.merge w = w))

/-- The order of slot contents: the unwritten content is least, an unusable one
is greatest, and values of one size are ordered by their nullabilities. -/
def Below (v w : Value) : Prop :=
  w.size = 0 ∨ v = empty ∨ v.size = w.size ∧ v.nullability.le w.nullability

theorem Known.regular {v : Value} (h : v.Known) : v.Regular :=
  Or.inr (Or.inr h)

theorem regular_empty : empty.Regular := Or.inl rfl

theorem regular_conflict : conflict.Regular := Or.inr (Or.inl rfl)

theorem Known.size_ne_zero {v : Value} (h : v.Known) : v.size ≠ 0 := by
  rcases h.2 with h | h <;> simp [h]

theorem Known.isConflict_eq_false {v : Value} (h : v.Known) :
    v.isConflict = false := by
  simp [isConflict, h.size_ne_zero]

theorem Known.isEmpty_eq_false {v : Value} (h : v.Known) :
    v.isEmpty = false := by
  simp [isEmpty, h.1]

theorem Known.ne_empty {v : Value} (h : v.Known) : v ≠ empty := by
  rintro rfl
  exact h.1 rfl

theorem Known.ne_conflict {v : Value} (h : v.Known) : v ≠ conflict := by
  rintro rfl
  exact h.1 rfl

/-- Among regular contents, only the unusable one has size zero. -/
theorem Regular.eq_conflict_of_size {v : Value} (h : v.Regular)
    (hsize : v.size = 0) : v = conflict := by
  rcases h with rfl | rfl | h
  · simp [empty] at hsize
  · rfl
  · exact absurd hsize h.size_ne_zero

/-! ## Merging -/

@[simp] theorem merge_self (v : Value) : v.merge v = v := by
  simp [merge]

@[simp] theorem conflict_merge (v : Value) : conflict.merge v = conflict := by
  rw [merge]
  split_ifs <;> simp_all [isConflict, conflict]

@[simp] theorem merge_conflict (v : Value) : v.merge conflict = conflict := by
  rw [merge]
  split_ifs <;> simp_all [isConflict, conflict]

/-- The unwritten content adds nothing. -/
theorem Regular.empty_merge {v : Value} (h : v.Regular) :
    empty.merge v = v := by
  rcases h with rfl | rfl | h
  · exact merge_self _
  · exact merge_conflict _
  · have hempty : empty.isConflict = false ∧ empty.isEmpty = true := by decide
    simp [merge, h.ne_empty.symm, h.isConflict_eq_false, hempty]

theorem Regular.merge_empty {v : Value} (h : v.Regular) :
    v.merge empty = v := by
  rcases h with rfl | rfl | h
  · exact merge_self _
  · exact conflict_merge _
  · have hempty : empty.isConflict = false ∧ empty.isEmpty = true := by decide
    simp [merge, h.ne_empty, h.isConflict_eq_false, h.isEmpty_eq_false, hempty]

/-- Known values of one size merge their nullabilities. -/
theorem Known.merge_of_size_eq {v w : Value} (hv : v.Known) (hw : w.Known)
    (hsize : v.size = w.size) :
    v.merge w = ⟨v.nullability.merge w.nullability, v.size⟩ := by
  by_cases hvw : v = w
  · subst hvw
    simp [Nullability.merge]
  · simp [merge, hvw, hv.isConflict_eq_false, hw.isConflict_eq_false,
      hv.isEmpty_eq_false, hw.isEmpty_eq_false, hsize]

/-- Known values of different sizes conflict. -/
theorem Known.merge_of_size_ne {v w : Value} (hv : v.Known) (hw : w.Known)
    (hsize : v.size ≠ w.size) :
    v.merge w = conflict := by
  have hvw : v ≠ w := by
    rintro rfl
    exact hsize rfl
  simp [merge, hvw, hv.isConflict_eq_false, hw.isConflict_eq_false,
    hv.isEmpty_eq_false, hw.isEmpty_eq_false, hsize]

theorem Regular.merge {v w : Value} (hv : v.Regular) (hw : w.Regular) :
    (v.merge w).Regular := by
  rcases hv with rfl | rfl | hv
  · rwa [hw.empty_merge]
  · rw [conflict_merge]
    exact regular_conflict
  · rcases hw with rfl | rfl | hw
    · rw [hv.regular.merge_empty]
      exact hv.regular
    · rw [merge_conflict]
      exact regular_conflict
    · by_cases hsize : v.size = w.size
      · rw [hv.merge_of_size_eq hw hsize]
        exact Known.regular ⟨Nullability.merge_ne_unknown hv.1, hv.2⟩
      · rw [hv.merge_of_size_ne hw hsize]
        exact regular_conflict

theorem Regular.merge_comm {v w : Value} (hv : v.Regular) (hw : w.Regular) :
    v.merge w = w.merge v := by
  rcases hv with rfl | rfl | hv
  · rw [hw.empty_merge, hw.merge_empty]
  · rw [conflict_merge, merge_conflict]
  · rcases hw with rfl | rfl | hw
    · rw [hv.regular.merge_empty, hv.regular.empty_merge]
    · rw [merge_conflict, conflict_merge]
    · by_cases hsize : v.size = w.size
      · rw [hv.merge_of_size_eq hw hsize, hw.merge_of_size_eq hv hsize.symm,
          Nullability.merge_comm, hsize]
      · rw [hv.merge_of_size_ne hw hsize,
          hw.merge_of_size_ne hv (Ne.symm hsize)]

/-- Merging keeps a size on which both contents agree. -/
theorem Regular.size_merge {v w : Value} (hv : v.Regular) (hw : w.Regular)
    (hsize : v.size = w.size) : (v.merge w).size = v.size := by
  rcases hv with rfl | rfl | hv
  · rw [hw.empty_merge, hsize]
  · rw [conflict_merge]
  · rcases hw with rfl | rfl | hw
    · rw [hv.regular.merge_empty]
    · rw [merge_conflict, hsize]
    · rw [hv.merge_of_size_eq hw hsize]

/-- Merging known values of one size gives a known value. -/
theorem Known.merge {v w : Value} (hv : v.Known) (hw : w.Known)
    (hsize : v.size = w.size) : (v.merge w).Known := by
  rw [hv.merge_of_size_eq hw hsize]
  exact ⟨Nullability.merge_ne_unknown hv.1, hv.2⟩

/-! ## The structural order -/

theorem below_refl (v : Value) : v.Below v :=
  Or.inr (Or.inr ⟨rfl, Nullability.le_refl _⟩)

theorem empty_below (v : Value) : empty.Below v := Or.inr (Or.inl rfl)

theorem below_conflict (v : Value) : v.Below conflict := Or.inl rfl

theorem below_trans {u v w : Value} (huv : u.Below v) (hvw : v.Below w) :
    u.Below w := by
  rcases hvw with hw | rfl | ⟨hsize, hle⟩
  · exact Or.inl hw
  · -- Only the unwritten content lies below itself.
    rcases huv with h | h | ⟨hsize, hle⟩
    · simp [empty] at h
    · exact Or.inr (Or.inl h)
    · obtain ⟨n, s⟩ := u
      have hn : n = .unknown := by
        rcases Nullability.le_iff.mp hle with h | h | h
        · exact h
        · exact h
        · exact absurd h.symm Nullability.nullable_ne_unknown
      refine Or.inr (Or.inl ?_)
      rw [hn, show s = 1 from hsize]
      rfl
  · rcases huv with h | h | ⟨hsize', hle'⟩
    · exact Or.inl (hsize ▸ h)
    · exact Or.inr (Or.inl h)
    · exact Or.inr (Or.inr
        ⟨hsize'.trans hsize, Nullability.le_trans hle' hle⟩)

/-- On regular contents the two orders agree. -/
theorem le_iff_below {v w : Value} (hv : v.Regular) (hw : w.Regular) :
    v.Le w ↔ v.Below w := by
  rcases hv with rfl | rfl | hv
  · exact iff_of_true hw.empty_merge (empty_below w)
  · rw [Le, conflict_merge]
    constructor
    · rintro rfl
      exact below_refl _
    · rintro (h | h | ⟨h, -⟩)
      · exact (hw.eq_conflict_of_size h).symm
      · exact absurd h (by decide)
      · exact (hw.eq_conflict_of_size h.symm).symm
  · rcases hw with rfl | rfl | hw
    · rw [Le, hv.regular.merge_empty]
      refine iff_of_false hv.ne_empty ?_
      rintro (h | h | ⟨-, h⟩)
      · exact absurd h (by decide)
      · exact hv.ne_empty h
      · rcases Nullability.le_iff.mp h with h | h | h
        · exact hv.1 h
        · exact hv.1 h
        · exact absurd h (by decide)
    · exact iff_of_true (merge_conflict v) (below_conflict v)
    · by_cases hsize : v.size = w.size
      · obtain ⟨n, s⟩ := w
        have hzero : s ≠ 0 := hw.size_ne_zero
        rw [Le, hv.merge_of_size_eq hw hsize]
        simp_all [Below, hv.ne_empty, Nullability.le]
      · rw [Le, hv.merge_of_size_ne hw hsize]
        refine iff_of_false hw.ne_conflict.symm ?_
        rintro (h | h | ⟨h, -⟩)
        · exact hw.size_ne_zero h
        · exact hv.ne_empty h
        · exact hsize h

/-- Two regular contents that lie below each other are equal. -/
theorem Regular.below_antisymm {v w : Value} (hv : v.Regular) (hw : w.Regular)
    (hvw : v.Below w) (hwv : w.Below v) : v = w := by
  have hle : v.merge w = w := (le_iff_below hv hw).mpr hvw
  have hge : w.merge v = v := (le_iff_below hw hv).mpr hwv
  rw [← hle, hv.merge_comm hw, hge]

theorem below_merge_left {v w : Value} (hv : v.Regular) (hw : w.Regular) :
    v.Below (v.merge w) := by
  rcases hv with rfl | rfl | hv
  · exact empty_below _
  · rw [conflict_merge]
    exact below_refl _
  · rcases hw with rfl | rfl | hw
    · rw [hv.regular.merge_empty]
      exact below_refl _
    · rw [merge_conflict]
      exact below_conflict _
    · by_cases hsize : v.size = w.size
      · rw [hv.merge_of_size_eq hw hsize]
        exact Or.inr (Or.inr ⟨rfl, Nullability.le_merge_left _ _⟩)
      · rw [hv.merge_of_size_ne hw hsize]
        exact below_conflict _

theorem below_merge_right {v w : Value} (hv : v.Regular) (hw : w.Regular) :
    w.Below (v.merge w) := by
  rcases hv with rfl | rfl | hv
  · rw [hw.empty_merge]
    exact below_refl _
  · rw [conflict_merge]
    exact below_conflict _
  · rcases hw with rfl | rfl | hw
    · exact empty_below _
    · rw [merge_conflict]
      exact below_refl _
    · by_cases hsize : v.size = w.size
      · rw [hv.merge_of_size_eq hw hsize]
        exact Or.inr (Or.inr ⟨hsize.symm, Nullability.le_merge_right _ _⟩)
      · rw [hv.merge_of_size_ne hw hsize]
        exact below_conflict _

theorem merge_below {v w u : Value} (hv : v.Regular) (hw : w.Regular)
    (hvu : v.Below u) (hwu : w.Below u) :
    (v.merge w).Below u := by
  rcases hv with rfl | rfl | hv
  · rwa [hw.empty_merge]
  · rwa [conflict_merge]
  · rcases hw with rfl | rfl | hw
    · rwa [hv.regular.merge_empty]
    · rwa [merge_conflict]
    · rcases hvu with hu | h | ⟨hvs, hvn⟩
      · exact Or.inl hu
      · exact absurd h hv.ne_empty
      · rcases hwu with hu | h | ⟨hws, hwn⟩
        · exact Or.inl hu
        · exact absurd h hw.ne_empty
        · rw [hv.merge_of_size_eq hw (hvs.trans hws.symm)]
          exact Or.inr (Or.inr ⟨hvs, Nullability.merge_le hvn hwn⟩)

/-- What may be null stays so higher up, unless it becomes unusable. -/
theorem isViolation_of_below {v w : Value} (h : v.Below w) (hw : w.size ≠ 0)
    (hv : v.nullability.isViolation) : w.nullability.isViolation := by
  rcases h with h | rfl | ⟨-, h⟩
  · exact absurd h hw
  · exact absurd hv (by decide)
  · rcases Nullability.le_iff.mp h with h | h | h
    · rwa [← h]
    · rw [h] at hv
      exact absurd hv (by decide)
    · rw [h]
      decide

end Value
end Nullness
