import Nullness.Proofs.Paths

/-!
# Precision of the diagnosis

Every flagged receiver comes from somewhere: there is a path from the first
instruction on which the receiver is null, or may be, when only the instructions
of that path are carried out.  So the joins at positions where paths meet add no
report of their own.

Paths take relaxed steps here.  A path may read a local variable that it has not
set, because another path has set it, and then reads a value about which nothing
is known.

The proof traces contents back to paths.  A frame that the analysis stores is
related to a family of frames at the ends of paths: all lie below it, and for
each of its slots that may be null, the slot of some member may be null.
Instructions, handlers and joins keep this relation.
-/

namespace Nullness

namespace Nullability

theorem merge_mem_named {a b : Nullability} (ha : a ∈ named) (hb : b ∈ named) :
    a.merge b ∈ named := by
  rw [merge]
  split_ifs
  · exact ha
  · exact hb
  · exact ha
  · decide

/-- Only a merge with something that may be null may be null, as long as no
other nullabilities than the named ones occur. -/
theorem isViolation_of_merge {a b : Nullability} (ha : a ∈ named)
    (hb : b ∈ named) (h : (a.merge b).isViolation) :
    a.isViolation ∨ b.isViolation := by
  have hnamed : ∀ a ∈ named, ∀ b ∈ named, (a.merge b).isViolation →
      a.isViolation ∨ b.isViolation := by
    decide
  exact hnamed a ha b hb h

end Nullability

namespace Value

theorem merge_nullability_mem_named {v w : Value}
    (hv : v.nullability ∈ Nullability.named)
    (hw : w.nullability ∈ Nullability.named) :
    (v.merge w).nullability ∈ Nullability.named := by
  have hconflict : conflict.nullability ∈ Nullability.named := by decide
  rw [merge]
  split_ifs
  · exact hv
  · exact hconflict
  · exact hw
  · exact hv
  · exact hconflict
  · exact Nullability.merge_mem_named hv hw

/-- A merge that may be null has the size of a part that may be null. -/
theorem Regular.isViolation_of_merge {v w : Value} (hv : v.Regular)
    (hw : w.Regular) (hvn : v.nullability ∈ Nullability.named)
    (hwn : w.nullability ∈ Nullability.named)
    (h : (v.merge w).nullability.isViolation) :
    (v.nullability.isViolation ∧ v.size = (v.merge w).size) ∨
      (w.nullability.isViolation ∧ w.size = (v.merge w).size) := by
  have hconflict : ¬conflict.nullability.isViolation := by decide
  rcases hv with rfl | rfl | hv
  · rw [hw.empty_merge] at h ⊢
    exact Or.inr ⟨h, rfl⟩
  · rw [conflict_merge] at h
    exact absurd h hconflict
  · rcases hw with rfl | rfl | hw
    · rw [hv.regular.merge_empty] at h ⊢
      exact Or.inl ⟨h, rfl⟩
    · rw [merge_conflict] at h
      exact absurd h hconflict
    · by_cases hsize : v.size = w.size
      · rw [hv.merge_of_size_eq hw hsize] at h ⊢
        rcases Nullability.isViolation_of_merge hvn hwn h with h | h
        · exact Or.inl ⟨h, rfl⟩
        · exact Or.inr ⟨h, hsize.symm⟩
      · rw [hv.merge_of_size_ne hw hsize] at h
        exact absurd h hconflict

end Value

/-! ## Families of frames that a frame can be traced to -/

/-- If a content may be null, a member of the family of its size may be. -/
def Witnessed {ι : Type} (w : Value) (vs : ι → Value) : Prop :=
  w.nullability.isViolation →
    ∃ k, (vs k).nullability.isViolation ∧ (vs k).size = w.size

theorem Witnessed.merge {ι κ : Type} {v w : Value} {vs : ι → Value}
    {ws : κ → Value} (hvs : Witnessed v vs) (hws : Witnessed w ws)
    (hv : v.Regular) (hw : w.Regular)
    (hvn : v.nullability ∈ Nullability.named)
    (hwn : w.nullability ∈ Nullability.named) :
    Witnessed (v.merge w) (Sum.elim vs ws) := by
  intro hviolation
  rcases hv.isViolation_of_merge hw hvn hwn hviolation with
    ⟨h, hsize⟩ | ⟨h, hsize⟩
  · obtain ⟨k, hk, hksize⟩ := hvs h
    exact ⟨.inl k, hk, hksize.trans hsize⟩
  · obtain ⟨k, hk, hksize⟩ := hws h
    exact ⟨.inr k, hk, hksize.trans hsize⟩

/-- A family of contents below a content, one of which may be null if the
content may. -/
def traceRel (ι : Type) [Nonempty ι] : SlotRel ι where
  entry w vs := (belowRel ι).entry w vs ∧ Witnessed w vs
  content w vs := (belowRel ι).content w vs ∧ Witnessed w vs
  size_eq h := (belowRel ι).size_eq h.1
  constant hw :=
    ⟨(belowRel ι).constant hw,
      fun hviolation => ⟨Classical.arbitrary ι, hviolation, rfl⟩⟩
  loaded := by
    rintro size w w' vs ⟨hbelow, hwitnessed⟩ hread
    choose vs' hvs' hsize hbelow' hsame using
      fun k => (hbelow k).relaxedRead hread
    refine ⟨vs', hvs', fun k => ⟨hsize k, hbelow' k⟩, ?_⟩
    intro hviolation
    obtain ⟨rfl, -⟩ := Value.read_eq_some_iff.mp hread
    obtain ⟨k, hk, hksize⟩ := hwitnessed hviolation
    have hknown : (vs k).nullability ≠ .unknown := by
      intro hunknown
      rw [hunknown] at hk
      exact absurd hk (by decide)
    exact ⟨k, by rwa [hsame k hknown], hsize k⟩
  stored h := ⟨(belowRel ι).stored h.1, h.2⟩
  invalidated := by
    rintro w vs ⟨hbelow, hwitnessed⟩
    refine ⟨(belowRel ι).invalidated hbelow, ?_⟩
    rw [Value.invalidate]
    split_ifs with hsize
    · intro hviolation
      exact absurd hviolation (by decide)
    · intro hviolation
      obtain ⟨k, hk, hksize⟩ := hwitnessed hviolation
      have hkept : (vs k).invalidate = vs k := by
        rw [Value.invalidate, if_neg (by rwa [hksize])]
      refine ⟨k, ?_⟩
      dsimp only
      rw [hkept]
      exact ⟨hk, hksize⟩
  unusable :=
    ⟨(belowRel ι).unusable, fun hviolation => absurd hviolation (by decide)⟩

section Merge

variable {ι κ : Type} [Nonempty ι] [Nonempty κ]

theorem traceRel_content_merge (v w : Value) (vs : ι → Value) (ws : κ → Value)
    (h : (v.Regular ∧ w.Regular) ∧ v.nullability ∈ Nullability.named ∧
      w.nullability ∈ Nullability.named)
    (hvs : (traceRel ι).content v vs) (hws : (traceRel κ).content w ws) :
    (traceRel (ι ⊕ κ)).content (v.merge w) (Sum.elim vs ws) := by
  obtain ⟨⟨hv, hw⟩, hvn, hwn⟩ := h
  refine ⟨?_, hvs.2.merge hws.2 hv hw hvn hwn⟩
  rintro (k | k)
  · exact Value.below_trans (hvs.1 k) (Value.below_merge_left hv hw)
  · exact Value.below_trans (hws.1 k) (Value.below_merge_right hv hw)

theorem traceRel_entry_merge (v w : Value) (vs : ι → Value) (ws : κ → Value)
    (h : (v.size = w.size ∧ v.Regular ∧ w.Regular) ∧
      v.nullability ∈ Nullability.named ∧ w.nullability ∈ Nullability.named)
    (hvs : (traceRel ι).entry v vs) (hws : (traceRel κ).entry w ws) :
    (traceRel (ι ⊕ κ)).entry (v.merge w) (Sum.elim vs ws) := by
  obtain ⟨⟨hsize, hv, hw⟩, hvn, hwn⟩ := h
  have hmerge := hv.size_merge hw hsize
  refine ⟨?_, hvs.2.merge hws.2 hv hw hvn hwn⟩
  rintro (k | k)
  · exact ⟨(hvs.1 k).1.trans hmerge.symm,
      Value.below_trans (hvs.1 k).2 (Value.below_merge_left hv hw)⟩
  · exact ⟨(hws.1 k).1.trans (hsize.symm.trans hmerge.symm),
      Value.below_trans (hws.1 k).2 (Value.below_merge_right hv hw)⟩

end Merge

theorem Lift.const {ι : Type} {R : Value → (ι → Value) → Prop}
    (hR : ∀ w, R w (fun _ => w)) (ws : List Value) :
    Lift R ws (fun _ => ws) := by
  induction ws with
  | nil => exact .nil
  | cons w ws ih => exact .cons (hR w) ih

/-- Merged lists are related to the two families together. -/
theorem Lift.zipWith_merge {ι κ : Type} {R : Value → (ι → Value) → Prop}
    {S : Value → (κ → Value) → Prop} {T : Value → (ι ⊕ κ → Value) → Prop}
    {N : Value → Value → Prop} {ws us : List Value} {vss : ι → List Value}
    {xss : κ → List Value} (hN : List.Forall₂ N ws us) (h : Lift R ws vss)
    (h' : Lift S us xss)
    (hT : ∀ w u vs xs, N w u → R w vs → S u xs →
      T (w.merge u) (Sum.elim vs xs)) :
    Lift T (List.zipWith Value.merge ws us) (Sum.elim vss xss) := by
  induction hN generalizing vss xss with
  | nil =>
      cases h
      cases h'
      have hnil : (Sum.elim (fun _ => []) (fun _ => []) : ι ⊕ κ → List Value) =
          fun _ => [] := by
        funext k
        cases k <;> rfl
      rw [hnil]
      exact .nil
  | cons hwu _ ih =>
      cases h with
      | @cons _ vs _ vss head tail =>
          cases h' with
          | @cons _ xs _ xss head' tail' =>
              have hcons : (Sum.elim (fun k => vs k :: vss k)
                  (fun k => xs k :: xss k) : ι ⊕ κ → List Value) =
                  fun k => Sum.elim vs xs k :: Sum.elim vss xss k := by
                funext k
                cases k <;> rfl
              rw [hcons]
              exact .cons (hT _ _ _ _ hwu head head') (ih tail tail')

/-- A frame can be traced to frames with a property. -/
def Traced (P : Frame → Prop) (f : Frame) : Prop :=
  ∃ (ι : Type) (_ : Nonempty ι) (g : ι → Frame),
    (∀ k, P (g k)) ∧ (traceRel ι).Relates f g

namespace Traced

variable {P P' : Frame → Prop} {f f' g : Frame} {insn : Instruction}

theorem imp (h : Traced P f) (hP : ∀ u, P u → P' u) : Traced P' f := by
  obtain ⟨ι, hι, u, hu, hrel⟩ := h
  exact ⟨ι, hι, u, fun k => hP _ (hu k), hrel⟩

theorem self (hf : P f) : Traced P f := by
  refine ⟨Unit, inferInstance, fun _ => f, fun _ => hf, ?_, ?_⟩
  · exact Lift.const (fun w => ⟨fun _ => Value.below_refl w,
      fun hviolation => ⟨(), hviolation, rfl⟩⟩) f.locals
  · exact Lift.const (fun w => ⟨fun _ => ⟨rfl, Value.below_refl w⟩,
      fun hviolation => ⟨(), hviolation, rfl⟩⟩) f.stack

/-- An instruction carries the trace along. -/
theorem step (h : Traced P f) (hf : f.Counted)
    (hP : ∀ u, P u → u.Counted ∧ u.maxStack = f.maxStack)
    (hstep : Transfer.step f insn = .ok f') :
    Traced (fun u' => ∃ u, P u ∧ Transfer.relaxedStep u insn = .ok u') f' := by
  obtain ⟨ι, hι, u, hu, hrel⟩ := h
  obtain ⟨u', hrel', hu'⟩ := hrel.step hstep
  refine ⟨ι, hι, u', fun k => ⟨u k, hu k, ?_⟩, hrel'⟩
  obtain ⟨hcounted, hmax⟩ := hP (u k) (hu k)
  have hsizes : (u k).stack.map (·.size) = f.stack.map (·.size) :=
    hrel.stack.sizes_eq (fun _ _ => (traceRel ι).size_eq) k
  refine (hu' k).2 ?_ hmax
  rw [hcounted.slots_eq, hf.slots_eq]
  exact slotCount_eq_of_sizes hsizes

theorem caught (h : Traced P f) :
    Traced (fun u' => ∃ u, P u ∧ u' = u.caught) f.caught := by
  obtain ⟨ι, hι, u, hu, hrel⟩ := h
  refine ⟨ι, hι, fun k => (u k).caught, fun k => ⟨u k, hu k, rfl⟩,
    hrel.locals, ?_⟩
  exact .cons ((traceRel ι).constant Value.produced_nonNull) .nil

/-- A join can be traced to all that its parts can be traced to. -/
theorem join (hf : Traced P f) (hg : Traced P g) (hjoinable : f.Joinable g)
    (hfn : SlotInvariant.named.Holds f) (hgn : SlotInvariant.named.Holds g) :
    Traced P (f.join g) := by
  obtain ⟨ι, hι, u, hu, hrel⟩ := hf
  obtain ⟨κ, hκ, u', hu', hrel'⟩ := hg
  have hlocals : (fun k => (Sum.elim u u' k).locals) =
      Sum.elim (fun k => (u k).locals) (fun k => (u' k).locals) :=
    Sum.comp_elim Frame.locals u u'
  have hstack : (fun k => (Sum.elim u u' k).stack) =
      Sum.elim (fun k => (u k).stack) (fun k => (u' k).stack) :=
    Sum.comp_elim Frame.stack u u'
  -- The family of the join is the disjoint union: each side lies below the
  -- join, and a merged slot that may be null has such a slot on one of the
  -- sides.
  refine ⟨ι ⊕ κ, inferInstance, Sum.elim u u', ?_, ?_, ?_⟩
  · rintro (k | k)
    · exact hu k
    · exact hu' k
  · rw [hlocals]
    exact Lift.zipWith_merge
      (forall₂_and_of_mem hjoinable.1 hfn.locals hgn.locals)
      hrel.locals hrel'.locals traceRel_content_merge
  · rw [hstack]
    exact Lift.zipWith_merge
      (forall₂_and_of_mem hjoinable.2 hfn.stack hgn.stack)
      hrel.stack hrel'.stack traceRel_entry_merge

/-- A receiver that may be null can be found in a frame that it is traced to. -/
theorem exists_receiver {v : Value} (h : Traced P f)
    (hreceiver : Diagnosis.receiver? f insn = some v)
    (hviolation : v.nullability.isViolation) :
    ∃ u w, P u ∧ Diagnosis.receiver? u insn = some w ∧
      w.nullability.isViolation := by
  obtain ⟨ι, hι, u, hu, hrel⟩ := h
  obtain ⟨depth, hdepth, hv⟩ := Diagnosis.receiver?_eq_some_iff.mp hreceiver
  obtain ⟨vs, hvs, -, hwitnessed⟩ := hrel.stack.getElem? hv
  obtain ⟨k, hk, -⟩ := hwitnessed hviolation
  exact ⟨u k, vs k, hu k,
    Diagnosis.receiver?_eq_some_iff.mpr ⟨depth, hdepth, hvs k⟩, hk⟩

end Traced

/-! ## Tracing the frames of the analysis -/

namespace Analysis

variable {m : Method} {assumed : Nullability} {entry : Frame}
  {frames : Array (Option Frame)}

/-- Relaxed paths. -/
abbrev RelaxedPath (m : Method) (assumed : Nullability) : Nat → Frame → Prop :=
  Path m assumed Transfer.relaxedStep

theorem named_join {f g : Frame} (hjoinable : f.Joinable g)
    (hf : SlotInvariant.named.Holds f) (hg : SlotInvariant.named.Holds g) :
    SlotInvariant.named.Holds (f.join g) := by
  constructor
  · refine Frame.zipWith_merge_holds
      (forall₂_and_of_mem hjoinable.1 hf.locals hg.locals) ?_
    rintro v w ⟨-, hv, hw⟩
    exact Value.merge_nullability_mem_named hv hw
  · refine Frame.zipWith_merge_holds
      (forall₂_and_of_mem hjoinable.2 hf.stack hg.stack) ?_
    rintro v w ⟨-, hv, hw⟩
    exact Value.merge_nullability_mem_named hv hw

/-- To hold named nullabilities only, and to be traceable to relaxed paths, is a
stable property. -/
theorem stable_traced
    (haccounted : ∀ {pos f}, RelaxedPath m assumed pos f →
      Accounted m frames pos f) :
    Stable m fun pos f => SlotInvariant.named.Holds f ∧
      Traced (RelaxedPath m assumed pos) f where
  next := by
    rintro pos insn before after targets t hinsn hfits ⟨hnamed, htraced⟩ hstep
      hsucc ht
    refine ⟨hnamed.step hstep, ?_⟩
    have hroom := fun u (hu : RelaxedPath m assumed pos u) =>
      (haccounted hu).room hfits
    refine (htraced.step hfits.sound.counted hroom hstep).imp ?_
    rintro u' ⟨u, hu, hu'⟩
    exact hu.extend (.next hinsn hu' hsucc ht)
  caught := by
    rintro pos insn before after current h f hinsn hfits ⟨hnamed, htraced⟩ hstep
      hcurrent ⟨hnamed', htraced'⟩ hmem hcovers hf
    have hjoinable :=
      joinable_caught hcurrent.regular (hfits.step hstep).regular hf
    obtain ⟨-, -, rfl⟩ := handlerFrame_eq_ok_iff.mp hf
    have hafter := (hnamed.step hstep).caught
    refine ⟨named_join hjoinable hnamed'.caught hafter, ?_⟩
    refine Traced.join ?_ ?_ hjoinable hnamed'.caught hafter
    · refine htraced'.caught.imp ?_
      rintro - ⟨u, hu, rfl⟩
      exact hu.extend (.caughtBefore hmem hcovers)
    · have hroom := fun u (hu : RelaxedPath m assumed pos u) =>
        (haccounted hu).room hfits
      refine (htraced.step hfits.sound.counted hroom hstep).caught.imp ?_
      rintro - ⟨u', ⟨u, hu, hu'⟩, rfl⟩
      exact hu.extend (.caughtAfter hinsn hu' hmem hcovers)
  join := by
    rintro pos f g hf hg hsizes ⟨hfn, hft⟩ ⟨hgn, hgt⟩
    have hjoinable := hf.joinable hg hsizes
    exact ⟨named_join hjoinable hfn hgn, hft.join hgt hjoinable hfn hgn⟩

/-- No relaxed step fails along a path, and every flagged position is reached by
a path on which its receiver is null or may be. -/
theorem analyze_precise (h : analyze assumed m = .ok frames)
    (hassumed : assumed ∈ Nullability.named)
    (hparams : ∀ n ∈ m.params, n ∈ Nullability.named) :
    (m.instructions ≠ [] → ∃ entry, RelaxedPath m assumed 0 entry) ∧
      (∀ pos f, RelaxedPath m assumed pos f → ∃ insn after,
        m.instructions[pos]? = some insn ∧
          Transfer.relaxedStep f insn = .ok after) ∧
      ∀ pos ∈ Diagnosis.diagnose frames m.instructions, ∃ f insn v,
        RelaxedPath m assumed pos f ∧ m.instructions[pos]? = some insn ∧
          Diagnosis.receiver? f insn = some v ∧ v.nullability.isViolation := by
  refine ⟨?_, ?_, ?_⟩
  · intro hne
    obtain ⟨entry, hentry, -⟩ := fixpoint_of_analyze hne h
    exact ⟨entry, .start hentry hne⟩
  · intro pos f hpath
    obtain ⟨entry, hentry, hfix, -⟩ :=
      fixpoint_of_analyze hpath.instructions_ne_nil h
    obtain ⟨g, insn, targets, after, -, hinsn, -, -, hstep⟩ :=
      (hpath.accounted hentry hfix id).exists_relaxedStep hfix
    exact ⟨insn, after, hinsn, hstep⟩
  · intro pos hpos
    obtain ⟨insn, f, v, hinsn, hf, hreceiver, hviolation⟩ :=
      Diagnosis.mem_diagnose_iff.mp hpos
    have hne : m.instructions ≠ [] := by
      intro hnil
      rw [hnil] at hinsn
      cases hinsn
    obtain ⟨entry, hentry, hfix, hstable⟩ := fixpoint_of_analyze hne h
    have hnamed := named_of_entryFrame hassumed hparams hentry
    obtain ⟨-, htraced⟩ := hstable _
      (stable_traced fun hpath => hpath.accounted hentry hfix id)
      ⟨hnamed, Traced.self (.start hentry hne)⟩ pos f hf
    obtain ⟨u, w, hu, hreceiver', hviolation'⟩ :=
      htraced.exists_receiver hreceiver hviolation
    exact ⟨u, insn, w, hu, hinsn, hreceiver', hviolation'⟩

theorem analyze_precise_followLinks :
    analyze .unknown followLinks = .ok followLinksFrames ∧
      (∀ n ∈ followLinks.params, n ∈ Nullability.named) ∧
      Diagnosis.diagnose followLinksFrames followLinks.instructions = [1, 8] ∧
      (∀ pos f, RelaxedPath followLinks .unknown pos f → ∃ insn after,
        followLinks.instructions[pos]? = some insn ∧
          Transfer.relaxedStep f insn = .ok after) ∧
      ∀ pos ∈ Diagnosis.diagnose followLinksFrames followLinks.instructions,
        ∃ f insn v, RelaxedPath followLinks .unknown pos f ∧
          followLinks.instructions[pos]? = some insn ∧
          Diagnosis.receiver? f insn = some v ∧ v.nullability.isViolation :=
  have hparams : ∀ n ∈ followLinks.params, n ∈ Nullability.named := by decide
  ⟨analyze_followLinks, hparams, by decide +kernel,
    (analyze_precise analyze_followLinks (by decide) hparams).2⟩

end Analysis
end Nullness
