import Nullness.Proofs.WellFormed

/-!
# Local variables as a memory

The local variables of a frame are a memory of cells of one and two slots.  What
can be read at a slot is determined by the values stored so far, in their order:
the last store that takes up the slot has to start there, and no later store may
have taken up the second slot of its value.  Values that overlap with later ones
in any other way are lost, although a store repairs nothing but the slots next
to it.

The invariant that carries this through a history says, for each slot and each
value of known nullability, that the slot holds the value exactly if the history
keeps it there.
-/

namespace Nullness
namespace Frame

/-- A value that is stored in a local variable. -/
structure Write where
  index : Int64
  value : Value

/-- Stores values one after the other. -/
def storeAll : List Write → Action Unit
  | [] => return ()
  | w :: writes => do
    setLocal w.index w.value
    storeAll writes

namespace Write

/-- The stored value takes up the given slot. -/
def Touches (w : Write) (slot : Int) : Prop :=
  w.index.toInt ≤ slot ∧ slot < w.index.toInt + w.value.size.toNat

instance (w : Write) (slot : Int) : Decidable (w.Touches slot) :=
  inferInstanceAs (Decidable
    (w.index.toInt ≤ slot ∧ slot < w.index.toInt + w.value.size.toNat))

/-- The last write that touches a slot, with the writes after it. -/
def IsLast (writes : List Write) (slot : Int) (w : Write) (later : List Write) :
    Prop :=
  ∃ before, writes = before ++ w :: later ∧ w.Touches slot ∧
    ∀ x ∈ later, ¬x.Touches slot

/-- The last write that touches a slot has stored the value at the slot itself,
and has not been damaged since. -/
def Keeps (writes : List Write) (slot : Int) (v : Value) : Prop :=
  ∃ w later, IsLast writes slot w later ∧ w.index.toInt = slot ∧ w.value = v ∧
    (v.size = 2 → ∀ x ∈ later, ¬x.Touches (slot + 1))

variable {w : Write} {writes later : List Write} {slot : Int} {v : Value}

theorem not_keeps_nil : ¬Keeps [] slot v := by
  rintro ⟨w, later, ⟨before, heq, -⟩, -⟩
  simp at heq

theorem Keeps.known (h : Keeps writes slot v)
    (hknown : ∀ w ∈ writes, w.value.Known) :
    v.Known := by
  obtain ⟨w, later, ⟨before, rfl, -⟩, -, rfl, -⟩ := h
  exact hknown w (by simp)

/-- What one more write keeps: its own value, and what it does not touch. -/
theorem keeps_append_singleton (hw : w.Touches w.index.toInt) :
    Keeps (writes ++ [w]) slot v ↔
      (w.index.toInt = slot ∧ w.value = v) ∨
        Keeps writes slot v ∧ ¬w.Touches slot ∧
        (v.size = 2 → ¬w.Touches (slot + 1)) := by
  constructor
  · rintro ⟨x, later, ⟨before, heq, htouches, hlast⟩, hindex, hvalue, hupper⟩
    rcases List.eq_nil_or_concat later with rfl | ⟨later, y, rfl⟩
    · obtain ⟨-, hx⟩ := List.append_inj' heq rfl
      cases hx
      exact Or.inl ⟨hindex, hvalue⟩
    · rw [List.concat_eq_append] at heq hlast hupper
      rw [← List.cons_append, ← List.append_assoc] at heq
      obtain ⟨rfl, hy⟩ := List.append_inj' heq rfl
      cases hy
      rw [List.forall_mem_append, List.forall_mem_singleton] at hlast
      refine Or.inr ⟨⟨x, later, ⟨before, rfl, htouches, hlast.1⟩, hindex,
        hvalue, ?_⟩, hlast.2, ?_⟩
      · intro hwide y hy
        exact hupper hwide y (List.mem_append_left _ hy)
      · intro hwide
        exact hupper hwide w
          (List.mem_append_right _ (List.mem_singleton_self w))
  · rintro (⟨rfl, rfl⟩ |
      ⟨⟨x, later, ⟨before, rfl, htouches, hlast⟩, hindex, hvalue, hupper⟩,
      hslot, hnext⟩)
    · exact ⟨w, [], ⟨writes, rfl, hw, by simp⟩, rfl, rfl, by simp⟩
    · refine ⟨x, later ++ [w], ⟨before, by simp, htouches, ?_⟩, hindex, hvalue,
        ?_⟩
      · rw [List.forall_mem_append, List.forall_mem_singleton]
        exact ⟨hlast, hslot⟩
      · intro hwide
        rw [List.forall_mem_append, List.forall_mem_singleton]
        exact ⟨hupper hwide, hnext hwide⟩

end Write

open Write (Keeps)

variable {f g : Frame} {w : Write} {writes : List Write}

/-- What a value leaves in a slot when the slot after it is overwritten is a
known value only if it is the value itself, and that has one slot. -/
theorem invalidate_eq_iff {u v : Value} (hv : v.Known) :
    u.invalidate = v ↔ u = v ∧ v.size ≠ 2 := by
  rw [Value.invalidate]
  split_ifs with hwide
  · refine iff_of_false hv.ne_conflict.symm ?_
    rintro ⟨rfl, hnarrow⟩
    exact hnarrow hwide
  · constructor
    · rintro rfl
      exact ⟨rfl, hwide⟩
    · exact fun h => h.1

/-- Each slot holds the value that a history of writes keeps there. -/
structure Remembers (writes : List Write) (f : Frame) : Prop where
  regular : ∀ v ∈ f.locals, v.Regular
  holds_iff : ∀ (slot : Nat) (v : Value), v.Known →
    (f.locals[slot]? = some v ↔ Keeps writes slot v)

theorem remembers_new (maxLocals maxStack : Nat) :
    Remembers [] (new maxLocals maxStack) := by
  have hempty : ∀ v ∈ (new maxLocals maxStack).locals, v = .empty := fun v hv =>
    List.eq_of_mem_replicate hv
  constructor
  · intro v hv
    rw [hempty v hv]
    exact Value.regular_empty
  · intro slot v hknown
    refine iff_of_false ?_ Write.not_keeps_nil
    intro hv
    exact hknown.ne_empty (hempty v (List.mem_of_getElem? hv))

theorem Remembers.setLocal (hf : Remembers writes f) (hw : w.value.Known)
    (h : setLocal w.index w.value f = .ok () g) :
    Remembers (writes ++ [w]) g := by
  obtain ⟨⟨hrange, hlast⟩, rfl⟩ := setLocal_eq_ok_iff.mp h
  have hindex : (w.index.toInt.toNat : Int) = w.index.toInt := by omega
  have hsize : w.value.size.toNat = if w.value.size = 2 then 2 else 1 := by
    rcases hw.2 with hsize | hsize <;> simp [hsize]
  have hpositive : 1 ≤ w.value.size.toNat := by
    split_ifs at hsize <;> omega
  have htouches : w.Touches w.index.toInt := ⟨Int.le_refl _, by omega⟩
  constructor
  · exact SlotInvariant.Holds.storeAt (I := .known) hf.regular hw _
  · intro slot v hknown
    rw [getElem?_storeAt hlast, Write.keeps_append_singleton htouches]
    simp only [Write.Touches]
    split_ifs with hat hupper hbelow
    · -- The slot that is written.
      rw [Option.some.injEq, or_iff_left]
      · exact (and_iff_right (by omega)).symm
      · rintro ⟨-, hslot, -⟩
        omega
    · -- The second slot of what is written.
      refine iff_of_false ?_ ?_
      · intro hv
        exact hknown.ne_conflict (Option.some.inj hv).symm
      · rintro (⟨hslot, -⟩ | ⟨-, hslot, -⟩)
        · omega
        · rw [if_pos hupper.1] at hsize
          omega
    · -- The slot before, of which the upper half may be gone.
      rw [Option.map_eq_some_iff]
      constructor
      · rintro ⟨u, hu, hinvalid⟩
        obtain ⟨rfl, hnarrow⟩ := (invalidate_eq_iff hknown).mp hinvalid
        exact Or.inr ⟨(hf.holds_iff slot u hknown).mp hu, by omega, fun hwide =>
          absurd hwide hnarrow⟩
      · rintro (⟨hslot, -⟩ | ⟨hkeeps, -, hnext⟩)
        · omega
        · refine ⟨v, (hf.holds_iff slot v hknown).mpr hkeeps,
            (invalidate_eq_iff hknown).mpr ⟨rfl, ?_⟩⟩
          intro hwide
          exact hnext hwide (by omega)
    · -- A slot that has nothing to do with the write.
      have hends : w.value.size.toNat ≤ 1 ∨ slot ≠ w.index.toInt.toNat + 1 := by
        by_cases hwide : w.value.size = 2
        · exact Or.inr fun hslot => hupper ⟨hwide, hslot⟩
        · rw [if_neg hwide] at hsize
          exact Or.inl (by omega)
      have hle : w.value.size.toNat ≤ 2 := by
        split_ifs at hsize <;> omega
      rw [hf.holds_iff slot v hknown]
      constructor
      · intro hkeeps
        exact Or.inr ⟨hkeeps, by omega, fun _ => by omega⟩
      · rintro (⟨hslot, -⟩ | ⟨hkeeps, -⟩)
        · omega
        · exact hkeeps

theorem Remembers.storeAll {done : List Write} (hf : Remembers done f)
    (hknown : ∀ w ∈ writes, w.value.Known) (h : storeAll writes f = .ok () g) :
    Remembers (done ++ writes) g := by
  induction writes generalizing done f with
  | nil =>
      rw [Frame.storeAll, pure_eq] at h
      cases h
      rwa [List.append_nil]
  | cons w writes ih =>
      rw [List.forall_mem_cons] at hknown
      rw [Frame.storeAll, bind_eq_ok_iff] at h
      obtain ⟨_, f', hstore, hrest⟩ := h
      have hnext := ih (hf.setLocal hknown.1 hstore) hknown.2 hrest
      rwa [List.append_assoc, List.singleton_append] at hnext

theorem length_locals_of_storeAll (h : Frame.storeAll writes f = .ok () g) :
    g.locals.length = f.locals.length := by
  induction writes generalizing f with
  | nil =>
      rw [Frame.storeAll, pure_eq] at h
      cases h
      rfl
  | cons w writes ih =>
      rw [Frame.storeAll, bind_eq_ok_iff] at h
      obtain ⟨_, f', hstore, hrest⟩ := h
      obtain ⟨-, rfl⟩ := setLocal_eq_ok_iff.mp hstore
      rw [ih hrest]
      exact length_storeAt ..

/-- What the history keeps at a slot is what the slot holds, if that is a known
value. -/
theorem Remembers.keeps_iff (hf : Remembers writes f)
    (hknown : ∀ w ∈ writes, w.value.Known) {slot : Nat} {u v : Value}
    (hv : f.locals[slot]? = some v) :
    Keeps writes slot u ↔ u.Known ∧ u = v := by
  constructor
  · intro hu
    have hcontent := (hf.holds_iff slot u (hu.known hknown)).mpr hu
    exact ⟨hu.known hknown, Option.some.inj (hcontent.symm.trans hv)⟩
  · rintro ⟨hu, rfl⟩
    exact (hf.holds_iff slot u hu).mp hv

section Load

variable {index : Int64} {v : Value}

theorem loadLocal_of_known (h : f.local? index = some v) (hv : v.Known)
    (size : UInt8) :
    loadLocal index size f =
      if v.size ≠ size then .error (.error (.localSize index v.size size)) f
      else .ok v f := by
  rw [loadLocal, h]
  dsimp only
  rw [hv.isEmpty_eq_false, hv.isConflict_eq_false, Bool.or_self,
    if_neg Bool.false_ne_true]
  rfl

theorem loadLocal_of_not_known (h : f.local? index = some v)
    (hregular : v.Regular) (hv : ¬v.Known) (size : UInt8) :
    loadLocal index size f = .error (.error (.unusableLocal index)) f := by
  rw [loadLocal, h]
  rcases hregular with rfl | rfl | hknown
  · rfl
  · rfl
  · exact absurd hknown hv

end Load

/-- After any history of successful stores of known values into a fresh frame, a
load from a slot gives a value exactly if the last store that takes up the slot
has stored it there, it has the wanted size, and no later store has taken up its
second slot.  A load of another size is refused for the size if the value is
there, and the slot is unusable in all other cases. -/
theorem locals_are_cell_memory {maxLocals maxStack : Nat}
    (hknown : ∀ w ∈ writes, w.value.Known)
    (h : Frame.storeAll writes (new maxLocals maxStack) = .ok () f)
    (index : Int64) (size : UInt8)
    (hindex : 0 ≤ index.toInt ∧ index.toInt < maxLocals) :
    (∀ v, loadLocal index size f = .ok v f ↔
      Keeps writes index.toInt v ∧ v.size = size) ∧
    (∀ v, Keeps writes index.toInt v → v.size ≠ size →
      loadLocal index size f =
        .error (.error (.localSize index v.size size)) f) ∧
    ((¬∃ v, Keeps writes index.toInt v) →
      loadLocal index size f = .error (.error (.unusableLocal index)) f) := by
  have hf : Remembers writes f :=
    (remembers_new maxLocals maxStack).storeAll hknown h
  have hlength : f.locals.length = maxLocals :=
    (length_locals_of_storeAll h).trans List.length_replicate
  have hslot : index.toInt.toNat < f.locals.length := by omega
  obtain ⟨v, hv⟩ : ∃ v, f.locals[index.toInt.toNat]? = some v :=
    ⟨_, List.getElem?_eq_getElem hslot⟩
  have hlocal : f.local? index = some v := local?_eq_some_iff.mpr ⟨hindex.1, hv⟩
  have hkeeps : ∀ u, Keeps writes index.toInt u ↔ u.Known ∧ u = v := by
    intro u
    rw [← hf.keeps_iff hknown hv, Int.toNat_of_nonneg hindex.1]
  by_cases hvalue : v.Known
  · have hload := loadLocal_of_known hlocal hvalue size
    refine ⟨?_, ?_, ?_⟩
    · intro u
      rw [hload, hkeeps]
      split_ifs with hsize
      · refine iff_of_false (by simp) ?_
        rintro ⟨⟨-, rfl⟩, hu⟩
        exact hsize hu
      · constructor
        · intro hok
          cases hok
          exact ⟨⟨hvalue, rfl⟩, not_not.mp hsize⟩
        · rintro ⟨⟨-, rfl⟩, -⟩
          rfl
    · intro u hu hsize
      obtain ⟨-, rfl⟩ := (hkeeps u).mp hu
      rw [hload, if_pos hsize]
    · intro hnone
      exact absurd ⟨v, (hkeeps v).mpr ⟨hvalue, rfl⟩⟩ hnone
  · -- A content that is no known value cannot be read.
    have hregular := hf.regular v (List.mem_of_getElem? hv)
    have hload := loadLocal_of_not_known hlocal hregular hvalue size
    have hnone : ∀ u, ¬Keeps writes index.toInt u := by
      intro u hu
      obtain ⟨huknown, rfl⟩ := (hkeeps u).mp hu
      exact hvalue huknown
    refine ⟨?_, ?_, fun _ => hload⟩
    · intro u
      rw [hload]
      exact iff_of_false (by simp) fun hu => hnone u hu.1
    · intro u hu
      exact absurd hu (hnone u)

/-- A value of two slots, a value of one slot over its second half, and another
value of two slots behind it. -/
def overlappingWrites : List Write :=
  [⟨0, .primitive 2⟩, ⟨1, .nullable⟩, ⟨2, .primitive 2⟩]

/-- The first value is damaged, and the last one is not. -/
theorem locals_are_cell_memory_overlappingWrites :
    ∃ f, Frame.storeAll overlappingWrites (new 4 0) = .ok () f ∧
      f.locals = [.conflict, .nullable, .primitive 2, .conflict] ∧
      Keeps overlappingWrites 2 (.primitive 2) ∧
      loadLocal 2 2 f = .ok (.primitive 2) f ∧
      loadLocal 2 1 f = .error (.error (.localSize 2 2 1)) f ∧
      (¬∃ v, Keeps overlappingWrites 0 v) ∧
      loadLocal 0 2 f = .error (.error (.unusableLocal 0)) f := by
  have hknown : ∀ w ∈ overlappingWrites, w.value.Known := by decide
  have hstores : Frame.storeAll overlappingWrites (new 4 0) =
      .ok () ⟨[.conflict, .nullable, .primitive 2, .conflict], [], 0, 0⟩ := rfl
  have hlast : Keeps overlappingWrites 2 (.primitive 2) :=
    ⟨⟨2, .primitive 2⟩, [],
      ⟨[⟨0, .primitive 2⟩, ⟨1, .nullable⟩], rfl, by decide, by simp⟩,
      rfl, rfl, by simp⟩
  have hfirst : ¬∃ v, Keeps overlappingWrites 0 v := by
    rintro ⟨v, hv⟩
    have hload :=
      ((locals_are_cell_memory hknown hstores 0 v.size (by decide)).1 v).mpr
      ⟨hv, rfl⟩
    cases hload
  obtain ⟨hwide, -, -⟩ := locals_are_cell_memory hknown hstores 2 2 (by decide)
  obtain ⟨-, hnarrow, -⟩ :=
    locals_are_cell_memory hknown hstores 2 1 (by decide)
  obtain ⟨-, -, hdamaged⟩ :=
    locals_are_cell_memory hknown hstores 0 2 (by decide)
  exact ⟨_, hstores, rfl, hlast, (hwide _).mpr ⟨hlast, rfl⟩,
    hnarrow _ hlast (by decide), hfirst, hdamaged hfirst⟩

end Frame
end Nullness
