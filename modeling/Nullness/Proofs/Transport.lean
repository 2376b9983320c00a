import Nullness.Proofs.Exchange
import Nullness.Proofs.FrameOrder
import Nullness.Transfer

/-!
# Slot relations and the transfer function

The transfer function moves slot contents around without looking at more than
their sizes, and at whether a local variable can be read.  So every relation
between slot contents that respects moving and reading is kept by every
instruction.

A slot relation ties one content to a family of contents.  A family of one gives
the order of frames, an empty family gives an invariant of single frames, and
the family of all paths to a position gives the tracing of a content back to one
of them.  The upper frame takes a step of the machine, and the frames of the
family take relaxed steps, in which an unset local variable can be read.
-/

namespace Nullness

/-! ## Lists related to families of lists -/

/-- A list related, place by place, to a family of lists. -/
inductive Lift {ι : Type} (R : Value → (ι → Value) → Prop) :
    List Value → (ι → List Value) → Prop
  | nil : Lift R [] (fun _ => [])
  | cons {w : Value} {vs : ι → Value} {ws : List Value}
      {vss : ι → List Value} (head : R w vs) (tail : Lift R ws vss) :
      Lift R (w :: ws) (fun k => vs k :: vss k)

namespace Lift

variable {ι : Type} {R : Value → (ι → Value) → Prop}
  {ws : List Value} {vss : ι → List Value}

theorem length_eq (h : Lift R ws vss) (k : ι) :
    (vss k).length = ws.length := by
  induction h with
  | nil => rfl
  | cons _ _ ih => simp [ih]

theorem sizes_eq (hR : ∀ w vs, R w vs → ∀ k, (vs k).size = w.size)
    (h : Lift R ws vss) (k : ι) :
    (vss k).map (·.size) = ws.map (·.size) := by
  induction h with
  | nil => rfl
  | cons head _ ih => simp [ih, hR _ _ head k]

theorem append {ws' : List Value} {vss' : ι → List Value}
    (h : Lift R ws vss) (h' : Lift R ws' vss') :
    Lift R (ws ++ ws') (fun k => vss k ++ vss' k) := by
  induction h with
  | nil => exact h'
  | cons head _ ih => exact .cons head ih

/-- The parts of a list are related to parts of the family. -/
theorem split {ws' : List Value} (h : Lift R (ws ++ ws') vss) :
    ∃ us us', (∀ k, vss k = us k ++ us' k) ∧ Lift R ws us ∧ Lift R ws' us' := by
  induction ws generalizing vss with
  | nil => exact ⟨fun _ => [], vss, fun _ => rfl, .nil, h⟩
  | cons w ws ih =>
      rw [List.cons_append] at h
      cases h with
      | cons head tail =>
          obtain ⟨us, us', heq, hus, hus'⟩ := ih tail
          refine ⟨_, us', ?_, .cons head hus, hus'⟩
          intro k
          dsimp only
          rw [heq k, List.cons_append]

theorem singleton {w : Value} (h : Lift R [w] vss) :
    ∃ vs, (∀ k, vss k = [vs k]) ∧ R w vs := by
  cases h with
  | cons head tail =>
      cases tail with
      | nil => exact ⟨_, fun _ => rfl, head⟩

theorem getElem? (h : Lift R ws vss) {i : Nat} {w : Value}
    (hw : ws[i]? = some w) :
    ∃ vs, (∀ k, (vss k)[i]? = some (vs k)) ∧ R w vs := by
  induction h generalizing i with
  | nil => simp at hw
  | cons head _ ih =>
      cases i with
      | zero =>
          rw [List.getElem?_cons_zero, Option.some.injEq] at hw
          subst hw
          exact ⟨_, fun _ => rfl, head⟩
      | succ i =>
          rw [List.getElem?_cons_succ] at hw
          simpa using ih hw

theorem of_getElem? (hlen : ∀ k, (vss k).length = ws.length)
    (h : ∀ (i : Nat) w, ws[i]? = some w →
      ∃ vs, (∀ k, (vss k)[i]? = some (vs k)) ∧ R w vs) :
    Lift R ws vss := by
  induction ws generalizing vss with
  | nil =>
      have hnil : vss = fun _ => [] := by
        funext k
        exact List.length_eq_zero_iff.mp (hlen k)
      rw [hnil]
      exact .nil
  | cons w ws ih =>
      obtain ⟨vs, hvs, hR⟩ := h 0 w rfl
      have hcons : vss = fun k => vs k :: (vss k).tail := by
        funext k
        have hk := hvs k
        cases hl : vss k with
        | nil => simp [hl] at hk
        | cons v tail =>
            rw [hl, List.getElem?_cons_zero, Option.some.injEq] at hk
            rw [hk, List.tail_cons]
      rw [hcons]
      refine .cons hR (ih ?_ ?_)
      · intro k
        rw [List.length_tail, hlen k]
        rfl
      · intro i u hu
        obtain ⟨us, hus, hRu⟩ := h (i + 1) u hu
        refine ⟨us, ?_, hRu⟩
        intro k
        rw [List.getElem?_tail, hus k]

theorem set (h : Lift R ws vss) (i : Nat) {w : Value} {vs : ι → Value}
    (hR : R w vs) :
    Lift R (ws.set i w) (fun k => (vss k).set i (vs k)) := by
  induction h generalizing i with
  | nil => exact .nil
  | cons head tail ih =>
      cases i with
      | zero => exact .cons hR tail
      | succ i => exact .cons head (ih i)

theorem modify (h : Lift R ws vss) (i : Nat) {change : Value → Value}
    (hR : ∀ w vs, R w vs → R (change w) (fun k => change (vs k))) :
    Lift R (ws.modify i change) (fun k => (vss k).modify i change) := by
  induction h generalizing i with
  | nil => simpa using Lift.nil
  | cons head tail ih =>
      cases i with
      | zero => simpa using Lift.cons (hR _ _ head) tail
      | succ i => simpa using Lift.cons head (ih i)

end Lift

/-- A family of lists each of which is related to one list. -/
theorem lift_forall_iff {ι : Type} {S : Value → Value → Prop}
    {ws : List Value} {vss : ι → List Value} :
    Lift (fun w vs => ∀ k, S (vs k) w) ws vss ↔
      ∀ k, List.Forall₂ S (vss k) ws := by
  constructor
  · intro h k
    induction h with
    | nil => exact .nil
    | cons head _ ih => exact .cons (head k) ih
  · intro h
    refine Lift.of_getElem? (fun k => (h k).length_eq) ?_
    intro i w hw
    have hget : ∀ k, ∃ v, (vss k)[i]? = some v ∧ S v w := by
      intro k
      obtain ⟨hi, rfl⟩ := List.getElem?_eq_some_iff.mp hw
      have hi' : i < (vss k).length := (h k).length_eq ▸ hi
      exact ⟨(vss k)[i], List.getElem?_eq_getElem hi', (h k).get hi' hi⟩
    choose vs hvs hS using hget
    exact ⟨vs, hvs, hS⟩

/-- Related to no list at all, a list has a property of its members. -/
theorem lift_empty_iff {P : Value → Prop} {ws : List Value}
    {vss : Empty → List Value} :
    Lift (fun w _ => P w) ws vss ↔ ∀ w ∈ ws, P w := by
  constructor
  · intro h w hw
    obtain ⟨i, hi⟩ := List.getElem?_of_mem hw
    obtain ⟨-, -, hP⟩ := h.getElem? hi
    exact hP
  · intro h
    refine Lift.of_getElem? (fun k => k.elim) ?_
    intro i w hw
    exact ⟨Empty.elim, fun k => k.elim, h w (List.mem_of_getElem? hw)⟩

namespace Value

/-- What is left of a content when the slot after it is overwritten. -/
def invalidate (v : Value) : Value := if v.size = 2 then conflict else v

end Value

theorem Frame.storeAt_eq (locals : List Value) (index : Nat) (v : Value) :
    Frame.storeAt locals index v =
      let below := if 0 < index then
        locals.modify (index - 1) Value.invalidate else locals
      let set := below.set index v
      if v.size = 2 then set.set (index + 1) Value.conflict else set := by
  have hmodify : ∀ i : Nat,
      (if (locals[i]?).any (·.size = 2) then locals.set i Value.conflict
        else locals) = locals.modify i Value.invalidate := by
    intro i
    rw [List.modify_eq_set_getElem?]
    cases h : locals[i]? with
    | none => simp
    | some w =>
        by_cases hsize : w.size = 2
        · simp [hsize, Value.invalidate]
        · obtain ⟨hi, rfl⟩ := List.getElem?_eq_some_iff.mp h
          simp [hsize, Value.invalidate]
  rw [Frame.storeAt]
  by_cases hindex : 0 < index
  · simp only [hindex, true_and, if_true, hmodify]
  · simp only [hindex, false_and, if_false]

/-! ## Slot relations -/

/-- A value that an instruction can leave by itself: its nullability is known
and named, and a value of two slots is not null. -/
structure Value.Produced (v : Value) : Prop where
  known : v.Known
  named : v.nullability ∈ Nullability.named
  wide : v.size = 2 → v.nullability = .nonNull

theorem Value.produced_nonNull : Value.nonNull.Produced where
  known := ⟨Nullability.nonNull_ne_unknown, Or.inl rfl⟩
  named := by decide
  wide := by decide

/-- A relation between a content and a family of contents that every movement of
contents keeps: `entry` on the stack, `content` among the local variables. -/
structure SlotRel (ι : Type) where
  entry : Value → (ι → Value) → Prop
  content : Value → (ι → Value) → Prop
  size_eq : ∀ {w vs}, entry w vs → ∀ k, (vs k).size = w.size
  constant : ∀ {w}, w.Produced → entry w (fun _ => w)
  loaded : ∀ {size w w' vs}, content w vs → w.read size = some w' →
    ∃ vs', (∀ k, (vs k).relaxedRead size = some (vs' k)) ∧ entry w' vs'
  stored : ∀ {w vs}, entry w vs → content w vs
  invalidated : ∀ {w vs}, content w vs →
    content w.invalidate (fun k => (vs k).invalidate)
  unusable : content Value.conflict (fun _ => Value.conflict)

/-- The fixed value that an effect leaves, if it leaves one. -/
def Effect.result? : Effect → Option Value
  | .consume _ result => result
  | _ => none

/-- An effect that leaves a fixed value leaves one of known nullability, and
none of two slots that may be null. -/
def Effect.LeavesKnown (e : Effect) : Prop :=
  ∀ v ∈ e.result?, v.nullability ≠ .unknown ∧
    v.nullability ∈ Nullability.named ∧ (v.size = 2 → v.nullability = .nonNull)

instance (e : Effect) : Decidable e.LeavesKnown :=
  inferInstanceAs (Decidable (∀ v ∈ e.result?, v.nullability ≠ .unknown ∧
    v.nullability ∈ Nullability.named ∧
      (v.size = 2 → v.nullability = .nonNull)))

namespace SlotRel

variable {ι : Type} (R : SlotRel ι)

/-- Storing related values keeps local variables related. -/
theorem lift_storeAt {ws : List Value} {vss : ι → List Value} {w : Value}
    {vs : ι → Value} (h : Lift R.content ws vss) (hw : R.entry w vs)
    (index : Nat) :
    Lift R.content (Frame.storeAt ws index w)
      (fun k => Frame.storeAt (vss k) index (vs k)) := by
  simp only [Frame.storeAt_eq, R.size_eq hw]
  have hbelow : Lift R.content
      (if 0 < index then ws.modify (index - 1) Value.invalidate else ws)
      (fun k => if 0 < index then
        (vss k).modify (index - 1) Value.invalidate else vss k) := by
    split_ifs
    · exact h.modify _ fun _ _ => R.invalidated
    · exact h
  have hset := hbelow.set index (R.stored hw)
  by_cases hsize : w.size = 2
  · simp only [hsize, if_true]
    exact hset.set (index + 1) R.unusable
  · simp only [hsize, if_false]
    exact hset

/-- An exchange of the upper frame carries over to every related frame. -/
theorem transport {e : Effect} {locals taken given rest locals' : List Value}
    {localsOf stackOf : ι → List Value} (he : e.LeavesKnown)
    (hx : e.Exchange Value.read locals taken given locals')
    (hgiven : ∀ v ∈ given, v.Stackable)
    (hstack : Lift R.entry (taken ++ rest) stackOf)
    (hlocals : Lift R.content locals localsOf) :
    ∃ takenOf givenOf restOf localsOf',
      (∀ k, stackOf k = takenOf k ++ restOf k) ∧
      (∀ k, e.Exchange Value.relaxedRead (localsOf k) (takenOf k) (givenOf k)
        (localsOf' k)) ∧
      Lift R.entry taken takenOf ∧ Lift R.entry given givenOf ∧
      Lift R.entry rest restOf ∧ Lift R.content locals' localsOf' := by
  obtain ⟨takenOf, restOf, hsplit, htakenOf, hrestOf⟩ := hstack.split
  have hsizes := htakenOf.sizes_eq fun _ _ => R.size_eq
  -- The entries below those taken play no part in any of the cases.
  suffices ∃ givenOf localsOf',
      (∀ k, e.Exchange Value.relaxedRead (localsOf k) (takenOf k) (givenOf k)
        (localsOf' k)) ∧
      Lift R.entry given givenOf ∧ Lift R.content locals' localsOf' by
    obtain ⟨givenOf, localsOf', hxs, hgivenOf, hlocals'⟩ := this
    exact ⟨takenOf, givenOf, restOf, localsOf', hsplit, hxs, htakenOf, hgivenOf,
      hrestOf, hlocals'⟩
  cases hx with
  | @consume sizes result taken hconsume =>
      refine ⟨fun _ => result.toList, localsOf, fun k => ?_, ?_, hlocals⟩
      · exact .consume ((hsizes k).trans hconsume)
      · cases result with
        | none => exact .nil
        | some v =>
            obtain ⟨hknown, hnamed, hwide⟩ := he v rfl
            have hv : v.Known := ⟨hknown, hgiven v (by simp)⟩
            exact .cons (R.constant ⟨hv, hnamed, hwide⟩) .nil
  | drop hfits =>
      refine ⟨fun _ => [], localsOf, fun k => ?_, .nil, hlocals⟩
      exact .drop (by rwa [hsizes k])
  | copy hfits =>
      refine ⟨fun k => takenOf k ++ takenOf k, localsOf, fun k => ?_,
        htakenOf.append htakenOf, hlocals⟩
      exact .copy (by rwa [hsizes k])
  | @copyUnder top below a b ha hb =>
      obtain ⟨as, bs, hab, has, hbs⟩ := htakenOf.split
      refine ⟨fun k => as k ++ bs k ++ as k, localsOf, fun k => ?_,
        (has.append hbs).append has, hlocals⟩
      rw [hab k]
      exact .copyUnder (by rwa [has.sizes_eq (fun _ _ => R.size_eq) k])
        (by rwa [hbs.sizes_eq (fun _ _ => R.size_eq) k])
  | @swap a b ha hb =>
      obtain ⟨as, bs, hab, has, hbs⟩ := htakenOf.split
      refine ⟨fun k => bs k ++ as k, localsOf, fun k => ?_,
        hbs.append has, hlocals⟩
      rw [hab k]
      exact .swap (by rwa [has.sizes_eq (fun _ _ => R.size_eq) k])
        (by rwa [hbs.sizes_eq (fun _ _ => R.size_eq) k])
  | @load index size v w hindex hv hread =>
      obtain ⟨vs, hvs, hcontent⟩ := hlocals.getElem? hv
      obtain ⟨ws, hws, hentry⟩ := R.loaded hcontent hread
      refine ⟨fun k => [ws k], localsOf, fun k => ?_, .cons hentry .nil,
        hlocals⟩
      have hnil : takenOf k = [] :=
        List.length_eq_zero_iff.mp (htakenOf.length_eq k)
      rw [hnil]
      exact .load hindex (hvs k) (hws k)
  | @store index size v hsize hadmits =>
      obtain ⟨vs, hvs, hentry⟩ := htakenOf.singleton
      have hvsize : ∀ k, (vs k).size = v.size := R.size_eq hentry
      refine ⟨fun _ => [],
        fun k => Frame.storeAt (localsOf k) index.toInt.toNat (vs k),
        fun k => ?_, .nil, R.lift_storeAt hlocals hentry _⟩
      rw [hvs k]
      refine .store ((hvsize k).trans hsize) ?_
      rwa [hvsize k, hlocals.length_eq k]
  | @read index v w hindex hv hread =>
      obtain ⟨vs, hvs, hcontent⟩ := hlocals.getElem? hv
      obtain ⟨ws, hws, -⟩ := R.loaded hcontent hread
      refine ⟨fun _ => [], localsOf, fun k => ?_, .nil, hlocals⟩
      have hnil : takenOf k = [] :=
        List.length_eq_zero_iff.mp (htakenOf.length_eq k)
      rw [hnil]
      exact .read hindex (hvs k) (hws k)
  | @recast v hsize =>
      obtain ⟨vs, hvs, hentry⟩ := htakenOf.singleton
      refine ⟨takenOf, localsOf, fun k => ?_, htakenOf, hlocals⟩
      rw [hvs k]
      exact .recast ((R.size_eq hentry k).trans hsize)

end SlotRel
end Nullness
