import Nullness.Proofs.Exchange
import Nullness.Proofs.FrameOrder

/-!
# Merging is an atomic least upper bound

Merging a frame into another one either is refused and leaves that frame alone,
or turns it into the least frame above both.  A frame is written to slot by
slot, so the first half says that no slot is written before every check has
passed.  To speak of the slots that have been written, the merge is carried out
here as a sequence of assignments (`absorb`), which agrees with the merge of
whole frames (`absorb_eq`).

A least upper bound of several frames depends on nothing but which frames these
are.  A `Grouping` is a way to merge frames two by two; two groupings of the
same frames give the same contents, whatever their order, their grouping and how
often each frame occurs.
-/

namespace Nullness

namespace Value

variable {u v w : Value}

protected theorem le_refl (v : Value) : v.Le v := merge_self v

/-- Above a known value there are regular contents only. -/
theorem Known.regular_of_le (hv : v.Known) (h : v.Le u) : u.Regular := by
  rw [Le, Value.merge] at h
  split_ifs at h with heq hconflict hempty hempty' hsize
  · exact h ▸ hv.regular
  · exact h ▸ regular_conflict
  · rw [hv.isEmpty_eq_false] at hempty
    exact absurd hempty Bool.false_ne_true
  · exact h ▸ hv.regular
  · exact h ▸ regular_conflict
  · exact h ▸ Known.regular ⟨Nullability.merge_ne_unknown hv.1, hv.2⟩

/-- Below a raw value that is no content of a slot there is the unwritten
content only. -/
theorem Regular.eq_empty_of_le (hv : v.Regular) (h : v.Le u) (hu : ¬u.Regular) :
    v = empty := by
  rcases hv with rfl | rfl | hv
  · rfl
  · rw [Le, conflict_merge] at h
    exact absurd (h ▸ regular_conflict) hu
  · exact absurd (hv.regular_of_le h) hu

theorem Regular.eq_empty_of_below (hv : v.Regular) (h : v.Below empty) :
    v = empty := by
  have hle : v.merge empty = empty := (le_iff_below hv regular_empty).mpr h
  rwa [hv.merge_empty] at hle

/-- The merge of two contents lies below exactly those values that both lie
below. -/
theorem merge_le_iff (hv : v.Regular) (hw : w.Regular) :
    (v.merge w).Le u ↔ v.Le u ∧ w.Le u := by
  have hleft := below_merge_left hv hw
  have hright := below_merge_right hv hw
  by_cases hu : u.Regular
  · rw [le_iff_below (hv.merge hw) hu, le_iff_below hv hu, le_iff_below hw hu]
    constructor
    · intro h
      exact ⟨below_trans hleft h, below_trans hright h⟩
    · rintro ⟨hvu, hwu⟩
      exact merge_below hv hw hvu hwu
  · constructor
    · intro h
      have hempty := (hv.merge hw).eq_empty_of_le h hu
      rw [hempty] at h hleft hright
      rw [hv.eq_empty_of_below hleft, hw.eq_empty_of_below hright]
      exact ⟨h, h⟩
    · rintro ⟨hvu, hwu⟩
      rwa [hv.eq_empty_of_le hvu hu, hw.eq_empty_of_le hwu hu, merge_self,
        ← hv.eq_empty_of_le hvu hu]

/-- Merging keeps a size on which two values agree, whatever values they are. -/
theorem size_merge_of_size_eq (hsize : v.size = w.size) :
    (v.merge w).size = v.size := by
  rw [merge]
  split_ifs with heq hconflict _ _ hne
  · rfl
  · rw [isConflict, isConflict, ← hsize, Bool.or_self,
      decide_eq_true_eq] at hconflict
    exact hconflict.symm
  · exact hsize.symm
  · rfl
  · exact absurd hsize hne
  · rfl

end Value

namespace Frame

variable {f g u : Frame}

/-! ## The least frame above two -/

/-- The order of the contents, slot by slot, whatever the sizes of the stack
entries. -/
def ContentLe (f g : Frame) : Prop :=
  List.Forall₂ Value.Le f.locals g.locals ∧
    List.Forall₂ Value.Le f.stack g.stack

instance (f g : Frame) : Decidable (f.ContentLe g) :=
  inferInstanceAs (Decidable (List.Forall₂ Value.Le f.locals g.locals ∧
    List.Forall₂ Value.Le f.stack g.stack))

theorem contentLe_refl (f : Frame) : f.ContentLe f :=
  ⟨List.forall₂_same.mpr fun v _ => Value.le_refl v,
    List.forall₂_same.mpr fun v _ => Value.le_refl v⟩

/-- Lists of merged contents lie below a third list exactly if both lists do. -/
theorem zipWith_merge_forall₂_iff {R S : Value → Value → Prop}
    {vs ws us : List Value} (h : List.Forall₂ S vs ws)
    (hR : ∀ v w u, S v w → (R (v.merge w) u ↔ R v u ∧ R w u)) :
    List.Forall₂ R (List.zipWith Value.merge vs ws) us ↔
      List.Forall₂ R vs us ∧ List.Forall₂ R ws us := by
  induction h generalizing us with
  | nil => simp
  | cons hvw _ ih =>
      cases us with
      | nil => simp
      | cons u us =>
          rw [List.zipWith_cons_cons, List.forall₂_cons, List.forall₂_cons,
            List.forall₂_cons, hR _ _ u hvw, ih, and_and_and_comm]

theorem Joinable.locals_join_le_iff (h : f.Joinable g) :
    List.Forall₂ Value.Le (f.join g).locals u.locals ↔
      List.Forall₂ Value.Le f.locals u.locals ∧
      List.Forall₂ Value.Le g.locals u.locals :=
  zipWith_merge_forall₂_iff h.1 fun _ _ _ hvw => Value.merge_le_iff hvw.1 hvw.2

theorem Joinable.join_contentLe_iff (h : f.Joinable g) :
    (f.join g).ContentLe u ↔ f.ContentLe u ∧ g.ContentLe u := by
  have hstack : List.Forall₂ Value.Le (f.join g).stack u.stack ↔ _ :=
    zipWith_merge_forall₂_iff h.2 fun _ _ _ hvw =>
      Value.merge_le_iff hvw.2.1 hvw.2.2
  rw [ContentLe, h.locals_join_le_iff, hstack, and_and_and_comm]
  rfl

theorem Joinable.join_slotLe_iff (h : f.Joinable g) :
    (f.join g).SlotLe u ↔ f.SlotLe u ∧ g.SlotLe u := by
  have hentries : ∀ v w u : Value, v.size = w.size ∧ v.Regular ∧ w.Regular →
      ((v.merge w).size = u.size ∧ (v.merge w).Le u ↔
        (v.size = u.size ∧ v.Le u) ∧ w.size = u.size ∧ w.Le u) := by
    rintro v w u ⟨hsize, hv, hw⟩
    rw [Value.merge_le_iff hv hw, hv.size_merge hw hsize, ← hsize,
      and_and_and_comm, and_self]
  have hstack : List.Forall₂ (fun v w : Value => v.size = w.size ∧ v.Le w)
      (f.join g).stack u.stack ↔ _ := zipWith_merge_forall₂_iff h.2 hentries
  rw [SlotLe, Slotwise, h.locals_join_le_iff, hstack, and_and_and_comm]
  rfl

theorem sizes_join (h : f.stack.map (·.size) = g.stack.map (·.size)) :
    (f.join g).stack.map (·.size) = f.stack.map (·.size) := by
  refine (forall₂_size_eq_iff.mp
    (forall₂_zipWith_merge_left (forall₂_size_eq_iff.mpr h) ?_)).symm
  intro v w hsize
  exact (Value.size_merge_of_size_eq hsize).symm

theorem length_locals_join (h : f.locals.length = g.locals.length) :
    (f.join g).locals.length = f.locals.length := by
  rw [join, List.length_zipWith, ← h, Nat.min_self]

/-- Frames that lie below each other have the same contents. -/
theorem ContentLe.contents_eq (hf : f.Regular) (hg : g.Regular)
    (hfg : f.ContentLe g) (hgf : g.ContentLe f) :
    f.locals = g.locals ∧ f.stack = g.stack := by
  have hantisymm : ∀ {vs ws : List Value}, (∀ v ∈ vs, v.Regular) →
      (∀ w ∈ ws, w.Regular) →
      List.Forall₂ Value.Le vs ws → List.Forall₂ Value.Le ws vs → vs = ws := by
    intro vs ws hvs hws hle hge
    refine List.ext_getElem hle.length_eq fun i hi hi' => ?_
    have hv := hvs _ (List.getElem_mem hi)
    have hw := hws _ (List.getElem_mem hi')
    exact hv.below_antisymm hw ((Value.le_iff_below hv hw).mp (hle.get hi hi'))
      ((Value.le_iff_below hw hv).mp (hge.get hi' hi))
  exact ⟨hantisymm hf.1 hg.1 hfg.1 hgf.1, hantisymm hf.2 hg.2 hfg.2 hgf.2⟩

/-- Merging a frame that lies below changes nothing. -/
theorem Joinable.join_eq_left_iff (h : f.Joinable g) (hf : f.Regular) :
    f.join g = f ↔ g.ContentLe f := by
  have hupper : f.ContentLe (f.join g) ∧ g.ContentLe (f.join g) :=
    h.join_contentLe_iff.mp (contentLe_refl _)
  constructor
  · intro heq
    rw [heq] at hupper
    exact hupper.2
  · intro hle
    have hlower := h.join_contentLe_iff.mpr ⟨contentLe_refl f, hle⟩
    obtain ⟨hlocals, hstack⟩ := hlower.contents_eq h.regular_join hf hupper.1
    cases f
    simp_all [join]

/-- A frame that merging two frames of one shape has to give: the least frame
above both, with the shape, the slot count and the bound of the first. -/
structure IsJoin (f g joined : Frame) : Prop where
  contentLe_iff : ∀ u, joined.ContentLe u ↔ f.ContentLe u ∧ g.ContentLe u
  slotLe_iff : ∀ u, joined.SlotLe u ↔ f.SlotLe u ∧ g.SlotLe u
  length_locals : joined.locals.length = f.locals.length
  sizes : joined.stack.map (·.size) = f.stack.map (·.size)
  slots : joined.slots = f.slots
  maxStack : joined.maxStack = f.maxStack
  regular : joined.Regular

theorem Joinable.isJoin (h : f.Joinable g) : IsJoin f g (f.join g) where
  contentLe_iff _ := h.join_contentLe_iff
  slotLe_iff _ := h.join_slotLe_iff
  length_locals := length_locals_join h.1.length_eq
  sizes := sizes_join (forall₂_size_eq_iff.mp (h.2.imp fun _ _ hvw => hvw.1))
  slots := rfl
  maxStack := rfl
  regular := h.regular_join

/-! ## Merging in place -/

/-- The two tables of a frame that a merge writes to. -/
inductive Table where
  | stack
  | locals

namespace Table

def slots : Table → Frame → List Value
  | .stack, f => f.stack
  | .locals, f => f.locals

def write : Table → List Value → Frame → Frame
  | .stack, vs, f => { f with stack := vs }
  | .locals, vs, f => { f with locals := vs }

variable (table : Table) (vs ws : List Value) (f : Frame)

@[simp] theorem slots_write : table.slots (table.write vs f) = vs := by
  cases table <;> rfl

@[simp] theorem write_write :
    table.write vs (table.write ws f) = table.write vs f := by
  cases table <;> rfl

@[simp] theorem write_slots : table.write (table.slots f) f = f := by
  cases table <;> rfl

end Table

/-- Refuses two stacks, given from the bottom up, at the first entries that
differ in size. -/
def checkSizes (entry : Nat) : List Value → List Value → Action Unit
  | v :: vs, w :: ws =>
    if v.size ≠ w.size then refuse (.mergeSize entry v.size w.size)
    else checkSizes (entry + 1) vs ws
  | _, _ => return ()

/-- Merges a content into one slot, which is written only if it changes, and
says whether it does. -/
def absorbSlot (table : Table) (index : Nat) (w : Value) : Action Bool :=
  fun f =>
  match (table.slots f)[index]? with
  | none => .error .crash f
  | some v =>
    if v.merge w = v then .ok false f
    else .ok true (table.write ((table.slots f).set index (v.merge w)) f)

/-- Merges contents into the slots from an index on, one after the other. -/
def absorbSlots (table : Table) : (index : Nat) → List Value → Action Bool
  | _, [] => return false
  | index, w :: ws => do
    let changed ← absorbSlot table index w
    let more ← absorbSlots table (index + 1) ws
    return changed || more

/-- Merges a frame into the current one: first the checks, then the
assignments. -/
def absorb (g : Frame) : Action Bool := fun f =>
  if f.locals.length ≠ g.locals.length then
    refuse (.mergeLocals f.locals.length g.locals.length) f
  else if f.stack.length ≠ g.stack.length then
    refuse (.mergeHeight f.stack.length g.stack.length) f
  else
    let merging : Action Bool := do
      checkSizes 0 f.stack.reverse g.stack.reverse
      let stackChanged ← absorbSlots .stack 0 g.stack
      let localsChanged ← absorbSlots .locals 0 g.locals
      return stackChanged || localsChanged
    merging f

theorem checkSizes_eq (entry : Nat) (vs ws : List Value) (f : Frame) :
    checkSizes entry vs ws f =
      match sizeClash? entry vs ws with
      | some (entry, left, right) =>
        .error (.error (.mergeSize entry left right)) f
      | none => .ok () f := by
  induction vs generalizing entry ws with
  | nil => rfl
  | cons v vs ih =>
      cases ws with
      | nil => rfl
      | cons w ws =>
          rw [checkSizes, sizeClash?]
          split_ifs
          · rfl
          · exact ih (entry + 1) ws

theorem absorbSlot_eq {table : Table} {index : Nat} {v : Value}
    (hv : (table.slots f)[index]? = some v) (w : Value) :
    absorbSlot table index w f =
      .ok (decide (v.merge w ≠ v))
        (table.write ((table.slots f).set index (v.merge w)) f) := by
  rw [absorbSlot, hv]
  dsimp only
  split_ifs with hsame
  · obtain ⟨hindex, rfl⟩ := List.getElem?_eq_some_iff.mp hv
    rw [hsame, List.set_getElem_self, Table.write_slots]
    simp
  · simp [hsame]

/-- Some slots have been written, and the next ones are merged with the given
contents. -/
theorem absorbSlots_eq (table : Table) (done : List Value) {vs ws : List Value}
    {f : Frame} (hslots : table.slots f = done ++ vs)
    (hlength : vs.length = ws.length) :
    absorbSlots table done.length ws f =
      .ok (slotsChange vs ws)
        (table.write (done ++ List.zipWith Value.merge vs ws) f) := by
  induction ws generalizing done vs f with
  | nil =>
      rw [List.length_nil, List.length_eq_zero_iff] at hlength
      rw [hlength] at hslots ⊢
      rw [List.zipWith_nil_left, ← hslots, Table.write_slots]
      rfl
  | cons w ws ih =>
      cases vs with
      | nil => simp at hlength
      | cons v vs =>
          have hslot : (table.slots f)[done.length]? = some v := by
            simp [hslots]
          have hwritten : table.slots (table.write
              ((table.slots f).set done.length (v.merge w)) f) =
                done ++ [v.merge w] ++ vs := by
            simp [hslots]
          have hrest := ih _ hwritten (by simpa using hlength)
          rw [List.length_append, List.length_singleton] at hrest
          rw [absorbSlots, bind_of_ok (absorbSlot_eq hslot w), bind_of_ok hrest,
            pure_eq, Table.write_write, List.append_assoc]
          rfl

/-- Merging in place gives the merged frame, or the frame as it was. -/
theorem absorb_eq (f g : Frame) :
    absorb g f =
      match f.merge g with
      | .ok (joined, changed) => .ok changed joined
      | .error e => .error (.error e) f := by
  rw [absorb, merge]
  by_cases hlocals : f.locals.length = g.locals.length
  · by_cases hstack : f.stack.length = g.stack.length
    · rw [if_neg (not_not.mpr hlocals), if_neg (not_not.mpr hlocals),
        if_neg (not_not.mpr hstack), if_neg (not_not.mpr hstack)]
      have hcheck := checkSizes_eq 0 f.stack.reverse g.stack.reverse f
      cases hclash : sizeClash? 0 f.stack.reverse g.stack.reverse with
      | some clash =>
          rw [hclash] at hcheck
          exact bind_of_error hcheck
      | none =>
          rw [hclash] at hcheck
          have hentries : absorbSlots .stack 0 g.stack f = _ :=
            absorbSlots_eq .stack [] rfl hstack
          dsimp only
          rw [bind_of_ok hcheck, bind_of_ok hentries]
          exact bind_of_ok (absorbSlots_eq .locals [] rfl hlocals)
    · rw [if_neg (not_not.mpr hlocals), if_neg (not_not.mpr hlocals),
        if_pos hstack, if_pos hstack]
      rfl
  · rw [if_pos hlocals, if_pos hlocals]
    rfl

/-! ## When frames can be merged -/

/-- Frames with as many local variables and with stack entries of the same
sizes. -/
def SameShape (f g : Frame) : Prop :=
  f.locals.length = g.locals.length ∧
    f.stack.map (·.size) = g.stack.map (·.size)

theorem SameShape.symm (h : f.SameShape g) : g.SameShape f :=
  ⟨h.1.symm, h.2.symm⟩

theorem SameShape.trans (h : f.SameShape g) (h' : g.SameShape u) :
    f.SameShape u :=
  ⟨h.1.trans h'.1, h.2.trans h'.2⟩

theorem exists_merge_iff : (∃ r, f.merge g = .ok r) ↔ f.SameShape g := by
  constructor
  · rintro ⟨⟨joined, changed⟩, hmerge⟩
    obtain ⟨hlocals, hsizes, -⟩ := merge_eq_ok_iff.mp hmerge
    exact ⟨hlocals, hsizes⟩
  · rintro ⟨hlocals, hsizes⟩
    exact ⟨_, merge_eq_ok_iff.mpr ⟨hlocals, hsizes, rfl, rfl⟩⟩

theorem sizes_ne_iff {vs ws : List Value} :
    vs.map (·.size) ≠ ws.map (·.size) ↔
      vs.length ≠ ws.length ∨
        ∃ (i : Nat) (v w : Value), vs[i]? = some v ∧ ws[i]? = some w ∧
        v.size ≠ w.size := by
  constructor
  · intro hne
    by_contra hall
    push Not at hall
    obtain ⟨hlength, hsizes⟩ := hall
    apply hne
    apply List.ext_getElem
    · rw [List.length_map, List.length_map, hlength]
    · intro i hi hi'
      rw [List.length_map] at hi hi'
      rw [List.getElem_map, List.getElem_map]
      exact hsizes i _ _ (List.getElem?_eq_getElem hi)
        (List.getElem?_eq_getElem hi')
  · rintro (hlength | ⟨i, v, w, hv, hw, hne⟩) hsizes
    · exact hlength (by simpa using congrArg List.length hsizes)
    · have hsize := congrArg (·[i]?) hsizes
      simp only [List.getElem?_map, hv, hw, Option.map_some,
        Option.some.injEq] at hsize
      exact hne hsize

theorem merge_eq_error_iff :
    (∃ e, f.merge g = .error e) ↔
      f.locals.length ≠ g.locals.length ∨ f.stack.length ≠ g.stack.length ∨
        ∃ (i : Nat) (v w : Value),
          f.stack[i]? = some v ∧ g.stack[i]? = some w ∧ v.size ≠ w.size := by
  have hfails : (∃ e, f.merge g = .error e) ↔ ¬∃ r, f.merge g = .ok r := by
    cases f.merge g <;> simp
  rw [hfails, exists_merge_iff, SameShape, not_and_or, ← Ne, ← Ne, sizes_ne_iff]

/-! ## Merging several frames -/

/-- A way to merge frames two by two, the second result into the first. -/
inductive Grouping where
  | single (f : Frame)
  | merged (first second : Grouping)

namespace Grouping

/-- The frames that are merged, each as often as it occurs. -/
def frames : Grouping → List Frame
  | .single f => [f]
  | .merged first second => first.frames ++ second.frames

/-- The frame that all others end up in. -/
def receiver : Grouping → Frame
  | .single f => f
  | .merged first _ => first.receiver

def result : Grouping → Except Error Frame
  | .single f => .ok f
  | .merged first second => do
    let f ← first.result
    let g ← second.result
    let (joined, _) ← f.merge g
    return joined

/-- A frame that merging several frames has to give: the least frame above all
of them, with the slot count and the bound of the one that the others end up
in. -/
structure Gives (s : Grouping) (f : Frame) : Prop where
  result : s.result = .ok f
  regular : f.Regular
  sameShape : ∀ g ∈ s.frames, f.SameShape g
  contentLe_iff : ∀ u, f.ContentLe u ↔ ∀ g ∈ s.frames, g.ContentLe u
  slots : f.slots = s.receiver.slots
  maxStack : f.maxStack = s.receiver.maxStack

theorem receiver_mem_frames (s : Grouping) : s.receiver ∈ s.frames := by
  induction s with
  | single f => exact List.mem_singleton_self f
  | merged first second ih => exact List.mem_append_left _ ih

theorem Gives.merged {s t : Grouping} (hf : s.Gives f) (hg : t.Gives g)
    (hshape : f.SameShape g) : (Grouping.merged s t).Gives (f.join g) := by
  have hjoinable := joinable_of_regular hf.regular hg.regular hshape.1 hshape.2
  have hmerge : f.merge g = .ok (f.join g, decide (f.join g ≠ f)) :=
    merge_eq_ok_iff.mpr ⟨hshape.1, hshape.2, rfl, rfl⟩
  have hjoin : (f.join g).SameShape f :=
    ⟨length_locals_join hshape.1, sizes_join hshape.2⟩
  refine ⟨?_, hjoinable.regular_join, ?_, ?_, hf.slots, hf.maxStack⟩
  · rw [Grouping.result, hf.result, hg.result]
    change (f.merge g >>= _) = _
    rw [hmerge]
    rfl
  · intro x hx
    rcases List.mem_append.mp hx with hx | hx
    · exact hjoin.trans (hf.sameShape x hx)
    · exact (hjoin.trans hshape).trans (hg.sameShape x hx)
  · intro u
    rw [hjoinable.join_contentLe_iff, hf.contentLe_iff, hg.contentLe_iff,
      frames, List.forall_mem_append]

theorem exists_gives {s : Grouping} (hregular : ∀ f ∈ s.frames, f.Regular)
    (hshape : ∀ f ∈ s.frames, ∀ g ∈ s.frames, f.SameShape g) :
    ∃ f, s.Gives f := by
  induction s with
  | single f =>
      refine ⟨f, rfl, hregular f (List.mem_singleton_self f), ?_, ?_, rfl, rfl⟩
      · intro g hg
        exact hshape f (List.mem_singleton_self f) g hg
      · intro u
        rw [frames, List.forall_mem_singleton]
  | merged s t ihs iht =>
      rw [frames, List.forall_mem_append] at hregular
      have hs : ∀ f ∈ s.frames, f ∈ (merged s t).frames := fun f hf =>
        List.mem_append_left _ hf
      have ht : ∀ f ∈ t.frames, f ∈ (merged s t).frames := fun f hf =>
        List.mem_append_right _ hf
      obtain ⟨f, hf⟩ := ihs hregular.1 fun x hx y hy =>
        hshape x (hs x hx) y (hs y hy)
      obtain ⟨g, hg⟩ := iht hregular.2 fun x hx y hy =>
        hshape x (ht x hx) y (ht y hy)
      -- The two results have the shape of the frames that they are merged from.
      have hx := hf.sameShape _ s.receiver_mem_frames
      have hy := hg.sameShape _ t.receiver_mem_frames
      have hxy :=
        hshape _ (hs _ s.receiver_mem_frames) _ (ht _ t.receiver_mem_frames)
      exact ⟨f.join g, hf.merged hg ((hx.trans hxy).trans hy.symm)⟩

theorem Gives.eq_ok {s : Grouping} (h : s.Gives f) :
    s.result = .ok ⟨f.locals, f.stack, s.receiver.slots,
      s.receiver.maxStack⟩ := by
  rw [h.result, ← h.slots, ← h.maxStack]

end Grouping

/-- Merging a frame into another one of another shape is refused and leaves that
frame alone.  Otherwise it gives the least frame above both, and reports no
change exactly if the merged frame lies below already.  So several frames that
can be merged give the same contents in whatever order, grouping and number they
are merged; the slot count and the bound are those of the frame that the others
are merged into. -/
theorem merge_is_atomic_join :
    (∀ f g : Frame, f.Regular → g.Regular →
      ((∃ e, f.merge g = .error e) ↔
        f.locals.length ≠ g.locals.length ∨ f.stack.length ≠ g.stack.length ∨
          ∃ (i : Nat) (v w : Value),
            f.stack[i]? = some v ∧ g.stack[i]? = some w ∧ v.size ≠ w.size) ∧
      (∀ e, f.merge g = .error e → absorb g f = .error (.error e) f) ∧
      ∀ joined changed, f.merge g = .ok (joined, changed) →
        absorb g f = .ok changed joined ∧ IsJoin f g joined ∧
          (changed = false ↔ joined = f) ∧ (joined = f ↔ g.ContentLe f)) ∧
    ∀ s t : Grouping, (∀ f, f ∈ s.frames ↔ f ∈ t.frames) →
      (∀ f ∈ s.frames, f.Regular) →
      (∀ f ∈ s.frames, ∀ g ∈ s.frames, ∃ r, f.merge g = .ok r) →
      ∃ locals stack,
        s.result = .ok ⟨locals, stack, s.receiver.slots, s.receiver.maxStack⟩ ∧
        t.result = .ok ⟨locals, stack, t.receiver.slots,
          t.receiver.maxStack⟩ := by
  constructor
  · intro f g hf hg
    refine ⟨merge_eq_error_iff, ?_, ?_⟩
    · intro e hmerge
      rw [absorb_eq, hmerge]
    · intro joined changed hmerge
      have habsorb := absorb_eq f g
      rw [hmerge] at habsorb
      obtain ⟨hlocals, hsizes, rfl, rfl⟩ := merge_eq_ok_iff.mp hmerge
      have hjoinable := joinable_of_regular hf hg hlocals hsizes
      exact ⟨habsorb, hjoinable.isJoin, by simp, hjoinable.join_eq_left_iff hf⟩
  · intro s t hframes hregular hmerge
    have hshape : ∀ f ∈ s.frames, ∀ g ∈ s.frames, f.SameShape g :=
      fun f hf g hg =>
      exists_merge_iff.mp (hmerge f hf g hg)
    obtain ⟨f, hf⟩ := Grouping.exists_gives hregular hshape
    obtain ⟨g, hg⟩ := Grouping.exists_gives (s := t)
      (fun x hx => hregular x ((hframes x).mpr hx))
      fun x hx y hy => hshape x ((hframes x).mpr hx) y ((hframes y).mpr hy)
    -- Both are least above the same frames.
    have hle : ∀ u, f.ContentLe u ↔ g.ContentLe u := fun u => by
      rw [hf.contentLe_iff, hg.contentLe_iff]
      exact forall_congr' fun x => imp_congr_left (hframes x)
    obtain ⟨hlocals, hstack⟩ := ContentLe.contents_eq hf.regular hg.regular
      ((hle g).mpr (contentLe_refl g)) ((hle f).mp (contentLe_refl f))
    refine ⟨f.locals, f.stack, hf.eq_ok, ?_⟩
    rw [hlocals, hstack]
    exact hg.eq_ok

/-- A frame with a value of two slots among its local variables. -/
def widePath : Frame := ⟨[.primitive 2, .conflict, .null], [.null], 1, 2⟩

/-- A frame of the same shape with values of one slot only. -/
def narrowPath : Frame := ⟨[.nullable, .nonNull, .nonNull], [.nonNull], 1, 2⟩

/-- A frame of the same shape that sets nothing. -/
def unsetPath : Frame := ⟨[.empty, .empty, .empty], [.null], 1, 2⟩

/-- The three frames one after the other. -/
def inTurn : Grouping :=
  ((Grouping.single widePath).merged (.single narrowPath)).merged
    (.single unsetPath)

/-- The same frames in another order and grouping, one of them twice. -/
def withRepetition : Grouping :=
  (Grouping.single unsetPath).merged
    ((Grouping.single narrowPath).merged
      ((Grouping.single widePath).merged (.single narrowPath)))

theorem merge_is_atomic_join_paths :
    widePath.Regular ∧ narrowPath.Regular ∧ unsetPath.Regular ∧
      absorb narrowPath.clearStack widePath =
        .error (.error (.mergeHeight 1 0)) widePath ∧
      IsJoin widePath narrowPath
        ⟨[.conflict, .conflict, .nullable], [.nullable], 1, 2⟩ ∧
      inTurn.result =
        .ok ⟨[.conflict, .conflict, .nullable], [.nullable], 1, 2⟩ ∧
      withRepetition.result = inTurn.result := by
  have hwide : widePath.Regular := by decide
  have hnarrow : narrowPath.Regular := by decide
  have hunset : unsetPath.Regular := by decide
  have hframes : ∀ f, f ∈ inTurn.frames ↔ f ∈ withRepetition.frames := by
    intro f
    simp only [inTurn, withRepetition, Grouping.frames, List.mem_append,
      List.mem_singleton]
    tauto
  have hregular : ∀ f ∈ inTurn.frames, f.Regular := by decide
  have hmerge : ∀ f ∈ inTurn.frames, ∀ g ∈ inTurn.frames,
      ∃ r, f.merge g = .ok r := by
    have hshape : ∀ f ∈ inTurn.frames, ∀ g ∈ inTurn.frames,
        f.locals.length = g.locals.length ∧
          f.stack.map (·.size) = g.stack.map (·.size) := by
      decide
    intro f hf g hg
    exact exists_merge_iff.mpr (hshape f hf g hg)
  obtain ⟨hpairs, hgroupings⟩ := merge_is_atomic_join
  obtain ⟨-, hrefused, -⟩ :=
    hpairs widePath narrowPath.clearStack hwide (by decide)
  obtain ⟨-, -, hmerged⟩ := hpairs widePath narrowPath hwide hnarrow
  obtain ⟨locals, stack, hturn, hrepetition⟩ :=
    hgroupings inTurn withRepetition hframes hregular hmerge
  refine ⟨hwide, hnarrow, hunset, hrefused _ rfl, (hmerged _ true rfl).2.1, rfl,
    ?_⟩
  rw [hturn, hrepetition]
  rfl

end Frame
end Nullness
