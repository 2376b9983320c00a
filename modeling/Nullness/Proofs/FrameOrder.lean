import Nullness.Frame.Basic
import Nullness.Proofs.Order

/-!
# The order of frames

Frames are compared slot by slot.  Two frames are comparable only if they have
as many local variables and if their stacks agree entry by entry in size; the
number of slots counted and the stack bound play no part in the comparison.

The second half shows that merging two frames is their join: it succeeds exactly
if the shapes agree, it reports a change exactly if the first frame moves, and
what it returns is the least frame above both.
-/

namespace Nullness

theorem forall₂_trans {R : Value → Value → Prop}
    (htrans : ∀ u v w, R u v → R v w → R u w) {us vs ws : List Value}
    (huv : List.Forall₂ R us vs) (hvw : List.Forall₂ R vs ws) :
    List.Forall₂ R us ws := by
  induction huv generalizing ws with
  | nil => exact hvw
  | cons h _ ih =>
      cases hvw with
      | cons h' htail => exact .cons (htrans _ _ _ h h') (ih htail)

/-- Two related lists stay related under conditions on their members. -/
theorem forall₂_congr_of_mem {R S : Value → Value → Prop}
    {vs ws : List Value}
    (h : ∀ v ∈ vs, ∀ w ∈ ws, R v w ↔ S v w) :
    List.Forall₂ R vs ws ↔ List.Forall₂ S vs ws := by
  induction vs generalizing ws with
  | nil => simp
  | cons v vs ih =>
      cases ws with
      | nil => simp
      | cons w ws =>
          rw [List.forall₂_cons, List.forall₂_cons,
            h v (by simp) w (by simp),
            ih fun v' hv w' hw => h v' (by simp [hv]) w' (by simp [hw])]

/-- Two related lists stay related when their members have a property. -/
theorem forall₂_and_of_mem {R : Value → Value → Prop} {P : Value → Prop}
    {vs ws : List Value} (h : List.Forall₂ R vs ws) (hvs : ∀ v ∈ vs, P v)
    (hws : ∀ w ∈ ws, P w) :
    List.Forall₂ (fun v w => R v w ∧ P v ∧ P w) vs ws := by
  rw [List.forall₂_iff_zip] at h ⊢
  refine ⟨h.1, ?_⟩
  intro v w hmem
  obtain ⟨hv, hw⟩ := List.of_mem_zip hmem
  exact ⟨h.2 hmem, hvs v hv, hws w hw⟩

theorem forall₂_size_eq_iff {vs ws : List Value} :
    List.Forall₂ (fun v w : Value => v.size = w.size) vs ws ↔
      vs.map (·.size) = ws.map (·.size) := by
  rw [← List.forall₂_eq_eq_eq, List.forall₂_map_left_iff,
    List.forall₂_map_right_iff]

namespace Frame

/-- Two frames of one shape whose slots are related. -/
def Slotwise (R : Value → Value → Prop) (f g : Frame) : Prop :=
  List.Forall₂ R f.locals g.locals ∧
    List.Forall₂ (fun v w => v.size = w.size ∧ R v w) f.stack g.stack

/-- Every slot has a regular content. -/
def Regular (f : Frame) : Prop :=
  (∀ v ∈ f.locals, v.Regular) ∧ ∀ v ∈ f.stack, v.Regular

/-- The order that merging induces, slot by slot. -/
def SlotLe (f g : Frame) : Prop := Slotwise Value.Le f g

/-- The structural order, slot by slot. -/
def Below (f g : Frame) : Prop := Slotwise Value.Below f g

instance (f : Frame) : Decidable f.Regular :=
  inferInstanceAs (Decidable
    ((∀ v ∈ f.locals, v.Regular) ∧ ∀ v ∈ f.stack, v.Regular))

instance (f g : Frame) : Decidable (f.SlotLe g) :=
  inferInstanceAs (Decidable (List.Forall₂ Value.Le f.locals g.locals ∧
    List.Forall₂ (fun v w => v.size = w.size ∧ v.Le w) f.stack g.stack))

theorem slotLe_iff_below {f g : Frame} (hf : f.Regular) (hg : g.Regular) :
    f.SlotLe g ↔ f.Below g := by
  refine and_congr ?_ ?_
  · exact forall₂_congr_of_mem fun v hv w hw =>
      Value.le_iff_below (hf.1 v hv) (hg.1 w hw)
  · exact forall₂_congr_of_mem fun v hv w hw =>
      and_congr_right' (Value.le_iff_below (hf.2 v hv) (hg.2 w hw))

theorem below_refl (f : Frame) : f.Below f :=
  ⟨List.forall₂_same.mpr fun v _ => Value.below_refl v,
    List.forall₂_same.mpr fun v _ => ⟨rfl, Value.below_refl v⟩⟩

theorem below_trans {f g h : Frame} (hfg : f.Below g) (hgh : g.Below h) :
    f.Below h := by
  constructor
  · exact forall₂_trans (R := Value.Below)
      (fun _ _ _ => Value.below_trans) hfg.1 hgh.1
  · refine forall₂_trans ?_ hfg.2 hgh.2
    rintro u v w ⟨hsize, huv⟩ ⟨hsize', hvw⟩
    exact ⟨hsize.trans hsize', Value.below_trans huv hvw⟩

theorem Slotwise.sizes_eq {R : Value → Value → Prop} {f g : Frame}
    (h : Slotwise R f g) :
    f.stack.map (·.size) = g.stack.map (·.size) := by
  exact forall₂_size_eq_iff.mp (h.2.imp fun _ _ h => h.1)

/-! ## Merging -/

/-- The first frame with the slots of the second merged into its own. -/
def join (f g : Frame) : Frame :=
  { f with
    locals := List.zipWith Value.merge f.locals g.locals
    stack := List.zipWith Value.merge f.stack g.stack }

theorem sizeClash?_eq_none_iff {entry : Nat} {vs ws : List Value}
    (hlen : vs.length = ws.length) :
    sizeClash? entry vs ws = none ↔
      vs.map (·.size) = ws.map (·.size) := by
  induction vs generalizing entry ws with
  | nil =>
      cases ws with
      | nil => simp [sizeClash?]
      | cons w ws => simp at hlen
  | cons v vs ih =>
      cases ws with
      | nil => simp at hlen
      | cons w ws =>
          rw [sizeClash?]
          by_cases hsize : v.size = w.size
          · simp [hsize, ih (by simpa using hlen)]
          · simp [hsize]

theorem slotsChange_eq_false_iff {vs ws : List Value}
    (hlen : vs.length = ws.length) :
    slotsChange vs ws = false ↔ List.zipWith Value.merge vs ws = vs := by
  induction vs generalizing ws with
  | nil => simp [slotsChange]
  | cons v vs ih =>
      cases ws with
      | nil => simp at hlen
      | cons w ws =>
          have htail : slotsChange vs ws = false ↔
              List.zipWith Value.merge vs ws = vs :=
            ih (by simpa using hlen)
          simp_all [slotsChange]

/-- Merging succeeds exactly if the shapes agree; it then gives the join, and
reports a change exactly if the first frame moves. -/
theorem merge_eq_ok_iff {f g joined : Frame} {changed : Bool} :
    f.merge g = .ok (joined, changed) ↔
      f.locals.length = g.locals.length ∧
        f.stack.map (·.size) = g.stack.map (·.size) ∧
          joined = f.join g ∧ changed = decide (joined ≠ f) := by
  rw [merge]
  by_cases hlocals : f.locals.length = g.locals.length
  · by_cases hstack : f.stack.length = g.stack.length
    · have hclash :
          sizeClash? 0 f.stack.reverse g.stack.reverse = none ↔
            f.stack.map (·.size) = g.stack.map (·.size) := by
        rw [sizeClash?_eq_none_iff (by simpa using hstack)]
        simp [List.map_reverse]
      have hchange :
          (slotsChange f.stack g.stack || slotsChange f.locals g.locals) =
            decide (f.join g ≠ f) := by
        rw [Bool.eq_iff_iff, ← not_iff_not]
        simp only [Bool.or_eq_true, not_or, Bool.not_eq_true,
          slotsChange_eq_false_iff hstack, slotsChange_eq_false_iff hlocals,
          decide_eq_true_eq, not_not]
        obtain ⟨locals, stack, slots, maxStack⟩ := f
        simp [join, and_comm]
      cases hc : sizeClash? 0 f.stack.reverse g.stack.reverse with
      | some clash =>
          have hsizes : f.stack.map (·.size) ≠ g.stack.map (·.size) := by
            rw [Ne, ← hclash, hc]
            simp
          simp [hlocals, hstack, hsizes]
      | none =>
          have hsizes := hclash.mp hc
          simp only [hlocals, hstack, ne_eq, not_true_eq_false, if_false,
            Except.ok.injEq, Prod.mk.injEq, hsizes, true_and]
          rw [hchange]
          constructor
          · rintro ⟨rfl, rfl⟩
            exact ⟨rfl, rfl⟩
          · rintro ⟨rfl, rfl⟩
            exact ⟨rfl, rfl⟩
    · have hsizes : f.stack.map (·.size) ≠ g.stack.map (·.size) := by
        intro h
        exact hstack (by simpa using congrArg List.length h)
      simp [hlocals, hstack, hsizes]
  · simp [hlocals]

/-- Two frames of one shape with regular slots. -/
def Joinable (f g : Frame) : Prop :=
  List.Forall₂ (fun v w => v.Regular ∧ w.Regular) f.locals g.locals ∧
    List.Forall₂ (fun v w => v.size = w.size ∧ v.Regular ∧ w.Regular)
      f.stack g.stack

theorem joinable_of_regular {f g : Frame} (hf : f.Regular) (hg : g.Regular)
    (hlen : f.locals.length = g.locals.length)
    (hsizes : f.stack.map (·.size) = g.stack.map (·.size)) :
    f.Joinable g := by
  constructor
  · rw [List.forall₂_iff_zip]
    refine ⟨hlen, ?_⟩
    intro v w hmem
    obtain ⟨hv, hw⟩ := List.of_mem_zip hmem
    exact ⟨hf.1 v hv, hg.1 w hw⟩
  · exact forall₂_and_of_mem (forall₂_size_eq_iff.mpr hsizes) hf.2 hg.2

theorem forall₂_zipWith_merge_left {R S : Value → Value → Prop}
    {vs ws : List Value} (h : List.Forall₂ S vs ws)
    (hR : ∀ v w, S v w → R v (v.merge w)) :
    List.Forall₂ R vs (List.zipWith Value.merge vs ws) := by
  induction h with
  | nil => exact .nil
  | cons hvw _ ih => exact .cons (hR _ _ hvw) ih

theorem forall₂_zipWith_merge_right {R S : Value → Value → Prop}
    {vs ws : List Value} (h : List.Forall₂ S vs ws)
    (hR : ∀ v w, S v w → R w (v.merge w)) :
    List.Forall₂ R ws (List.zipWith Value.merge vs ws) := by
  induction h with
  | nil => exact .nil
  | cons hvw _ ih => exact .cons (hR _ _ hvw) ih

theorem zipWith_merge_forall₂ {R S : Value → Value → Prop}
    {vs ws us : List Value} (h : List.Forall₂ S vs ws)
    (hvs : List.Forall₂ R vs us) (hws : List.Forall₂ R ws us)
    (hR : ∀ v w u, S v w → R v u → R w u → R (v.merge w) u) :
    List.Forall₂ R (List.zipWith Value.merge vs ws) us := by
  induction h generalizing us with
  | nil => exact hvs
  | cons hvw _ ih =>
      cases hvs with
      | cons hvu hvs =>
          cases hws with
          | cons hwu hws =>
              exact .cons (hR _ _ _ hvw hvu hwu) (ih hvs hws)

theorem zipWith_merge_holds {P : Value → Prop} {S : Value → Value → Prop}
    {vs ws : List Value} (h : List.Forall₂ S vs ws)
    (hP : ∀ v w, S v w → P (v.merge w)) :
    ∀ u ∈ List.zipWith Value.merge vs ws, P u := by
  induction h with
  | nil => simp
  | cons hvw _ ih =>
      intro u hu
      rcases List.mem_cons.mp hu with rfl | hu
      · exact hP _ _ hvw
      · exact ih u hu

theorem Joinable.regular_join {f g : Frame} (h : f.Joinable g) :
    (f.join g).Regular := by
  constructor
  · refine zipWith_merge_holds h.1 ?_
    rintro v w ⟨hv, hw⟩
    exact hv.merge hw
  · refine zipWith_merge_holds h.2 ?_
    rintro v w ⟨-, hv, hw⟩
    exact hv.merge hw

theorem Joinable.below_join_left {f g : Frame} (h : f.Joinable g) :
    f.Below (f.join g) := by
  constructor
  · refine forall₂_zipWith_merge_left h.1 ?_
    rintro v w ⟨hv, hw⟩
    exact Value.below_merge_left hv hw
  · refine forall₂_zipWith_merge_left h.2 ?_
    rintro v w ⟨hsize, hv, hw⟩
    exact ⟨(hv.size_merge hw hsize).symm, Value.below_merge_left hv hw⟩

theorem Joinable.below_join_right {f g : Frame} (h : f.Joinable g) :
    g.Below (f.join g) := by
  constructor
  · refine forall₂_zipWith_merge_right h.1 ?_
    rintro v w ⟨hv, hw⟩
    exact Value.below_merge_right hv hw
  · refine forall₂_zipWith_merge_right h.2 ?_
    rintro v w ⟨hsize, hv, hw⟩
    exact ⟨hsize.symm.trans (hv.size_merge hw hsize).symm,
      Value.below_merge_right hv hw⟩

/-- The join is the least frame above both. -/
theorem Joinable.join_below {f g u : Frame} (h : f.Joinable g)
    (hf : f.Below u) (hg : g.Below u) :
    (f.join g).Below u := by
  constructor
  · refine zipWith_merge_forall₂ h.1 hf.1 hg.1 ?_
    rintro v w u ⟨hv, hw⟩ hvu hwu
    exact Value.merge_below hv hw hvu hwu
  · refine zipWith_merge_forall₂ h.2 hf.2 hg.2 ?_
    rintro v w u ⟨hsize, hv, hw⟩ ⟨hvu, hv'⟩ ⟨-, hw'⟩
    exact ⟨(hv.size_merge hw hsize).trans hvu,
      Value.merge_below hv hw hv' hw'⟩

end Frame
end Nullness
