import Nullness.Proofs.Soundness
import Nullness.Proofs.WellFormed

/-!
# The transfer function distributes over merging

Carrying out an instruction on two frames and merging the results is the same as
merging the frames first, as long as the instruction can be carried out on both.
So the frames that meet at a position lose nothing by being merged there, apart
from what the merge itself loses.

An instruction moves contents around, and moving commutes with merging slot by
slot.  Two kinds of instructions look at the contents they move.  A local
variable can be read from both frames only if it holds values of one size in
both, and then it can be read from the merged frame.  A store makes the slot
before it unusable if that slot holds a value of two slots, which may be so in
one frame only; merging makes it unusable either way.
-/

namespace Nullness

namespace Value

variable {u v w : Value}

theorem Regular.merge_assoc (hu : u.Regular) (hv : v.Regular) (hw : w.Regular) :
    (u.merge v).merge w = u.merge (v.merge w) := by
  have huv := hu.merge hv
  have hvw := hv.merge hw
  apply (huv.merge hw).below_antisymm (hu.merge hvw)
  · apply merge_below huv hw
    · apply merge_below hu hv
      · exact below_merge_left hu hvw
      · exact below_trans (below_merge_left hv hw) (below_merge_right hu hvw)
    · exact below_trans (below_merge_right hv hw) (below_merge_right hu hvw)
  · apply merge_below hu hvw
    · exact below_trans (below_merge_left hu hv) (below_merge_left huv hw)
    · apply merge_below hv hw
      · exact below_trans (below_merge_right hu hv) (below_merge_left huv hw)
      · exact below_merge_right huv hw

theorem Regular.merge_merge_merge_comm {x : Value} (hu : u.Regular)
    (hv : v.Regular) (hw : w.Regular) (hx : x.Regular) :
    (u.merge v).merge (w.merge x) = (u.merge w).merge (v.merge x) := by
  calc
    (u.merge v).merge (w.merge x) = u.merge ((v.merge w).merge x) := by
      rw [hu.merge_assoc hv (hw.merge hx), hv.merge_assoc hw hx]
    _ = u.merge ((w.merge v).merge x) := by
      rw [hv.merge_comm hw]
    _ = (u.merge w).merge (v.merge x) := by
      rw [hu.merge_assoc hw (hv.merge hx), hw.merge_assoc hv hx]

/-- A value of two slots is merged to one of two slots, or to an unusable
content. -/
theorem Regular.invalidate_merge_of_wide (hv : v.Regular) (hw : w.Regular)
    (hwide : v.size = 2) : (v.merge w).invalidate = conflict := by
  have hknown : v.Known := by
    rcases hv with rfl | rfl | hv
    · exact absurd hwide (by decide)
    · exact absurd hwide (by decide)
    · exact hv
  rcases hw with rfl | rfl | hw
  · rw [hv.merge_empty, Value.invalidate, if_pos hwide]
  · rw [merge_conflict]
    rfl
  · by_cases hsize : v.size = w.size
    · rw [hknown.merge_of_size_eq hw hsize, Value.invalidate, if_pos hwide]
    · rw [hknown.merge_of_size_ne hw hsize]
      rfl

/-- What is left of a merged content when the slot after it is overwritten is
merged from what is left of its parts. -/
theorem Regular.invalidate_merge (hv : v.Regular) (hw : w.Regular) :
    (v.merge w).invalidate = v.invalidate.merge w.invalidate := by
  by_cases hvwide : v.size = 2
  · have hleft : v.invalidate = conflict := if_pos hvwide
    rw [hv.invalidate_merge_of_wide hw hvwide, hleft, conflict_merge]
  · by_cases hwwide : w.size = 2
    · have hleft : w.invalidate = conflict := if_pos hwwide
      rw [hv.merge_comm hw, hw.invalidate_merge_of_wide hv hwwide, hleft,
        merge_conflict]
    · have hmerge : (v.merge w).size ≠ 2 := fun hwide =>
        (wide_of_merge hwide).elim hvwide hwwide
      simp only [Value.invalidate, hvwide, hwwide, hmerge, if_false]

/-- A content that can be read on both sides can be read from the merge. -/
theorem Regular.read_merge {size : UInt8} {v' w' : Value} (hv : v.Regular)
    (hw : w.Regular) (hread : v.read size = some v')
    (hread' : w.read size = some w') :
    (v.merge w).read size = some (v'.merge w') := by
  have hvknown := hv.known_of_read hread
  have hwknown := hw.known_of_read hread'
  obtain ⟨rfl, -, -, hsize⟩ := read_eq_some_iff.mp hread
  obtain ⟨rfl, -, -, hsize'⟩ := read_eq_some_iff.mp hread'
  have hsizes := hsize.trans hsize'.symm
  have hknown := hvknown.merge hwknown hsizes
  refine read_eq_some_iff.mpr ⟨rfl, hknown.isEmpty_eq_false,
    hknown.size_ne_zero, ?_⟩
  rw [hv.size_merge hw hsizes, hsize]

/-- Values that can stand at one place of the stacks of two frames that are
merged. -/
structure Matches (v w : Value) : Prop where
  size_eq : v.size = w.size
  left : v.Known
  right : w.Known

theorem Matches.size_merge (h : v.Matches w) : (v.merge w).size = v.size :=
  h.left.regular.size_merge h.right.regular h.size_eq

end Value

/-! ## Lists of contents -/

section Lists

variable {vs ws vs' ws' : List Value}

theorem forall₂_matches (hvs : ∀ v ∈ vs, v.Known) (hws : ∀ w ∈ ws, w.Known)
    (hsizes : vs.map (·.size) = ws.map (·.size)) :
    List.Forall₂ Value.Matches vs ws := by
  refine (forall₂_and_of_mem (forall₂_size_eq_iff.mpr hsizes) hvs hws).imp ?_
  rintro v w ⟨hsize, hv, hw⟩
  exact ⟨hsize, hv, hw⟩

theorem sizes_eq_of_matches (h : List.Forall₂ Value.Matches vs ws) :
    vs.map (·.size) = ws.map (·.size) :=
  forall₂_size_eq_iff.mp (h.imp fun _ _ hvw => hvw.size_eq)

theorem sizes_zipWith_merge (h : List.Forall₂ Value.Matches vs ws) :
    (List.zipWith Value.merge vs ws).map (·.size) = vs.map (·.size) := by
  induction h with
  | nil => rfl
  | cons hvw _ ih =>
      rw [List.zipWith_cons_cons, List.map_cons, List.map_cons, ih,
        hvw.size_merge]

theorem zipWith_merge_comm_of_regular (hvs : ∀ v ∈ vs, v.Regular)
    (hws : ∀ v ∈ ws, v.Regular) (hvs' : ∀ v ∈ vs', v.Regular)
    (hws' : ∀ v ∈ ws', v.Regular) :
    List.zipWith Value.merge (List.zipWith Value.merge vs ws)
        (List.zipWith Value.merge vs' ws') =
      List.zipWith Value.merge (List.zipWith Value.merge vs vs')
        (List.zipWith Value.merge ws ws') := by
  apply List.ext_getElem?
  intro i
  simp only [List.getElem?_zipWith]
  cases hv : vs[i]? with
  | none => cases ws[i]? <;> cases vs'[i]? <;> rfl
  | some v =>
    cases hw : ws[i]? with
    | none => cases vs'[i]? <;> rfl
    | some w =>
      cases hv' : vs'[i]? with
      | none => rfl
      | some v' =>
        cases hw' : ws'[i]? with
        | none => rfl
        | some w' =>
          refine congrArg some
            (Value.Regular.merge_merge_merge_comm ?_ ?_ ?_ ?_)
          · exact hvs v (List.mem_of_getElem? hv)
          · exact hws w (List.mem_of_getElem? hw)
          · exact hvs' v' (List.mem_of_getElem? hv')
          · exact hws' w' (List.mem_of_getElem? hw')

end Lists

/-- Storing merged values in merged local variables. -/
theorem Frame.storeAt_zipWith_merge {vs ws : List Value} {index : Nat}
    {v w : Value}
    (hlocals : List.Forall₂ (fun v w : Value => v.Regular ∧ w.Regular) vs ws)
    (hvw : v.Matches w) (h : lastWritten index v.size < vs.length) :
    storeAt (List.zipWith Value.merge vs ws) index (v.merge w) =
      List.zipWith Value.merge (storeAt vs index v) (storeAt ws index w) := by
  have hlength := hlocals.length_eq
  have hright : lastWritten index w.size < ws.length := by
    rwa [← hvw.size_eq, ← hlength]
  have hmerged : lastWritten index (v.merge w).size <
      (List.zipWith Value.merge vs ws).length := by
    rwa [hvw.size_merge, List.length_zipWith, ← hlength, Nat.min_self]
  apply List.ext_getElem?
  intro i
  rw [getElem?_storeAt hmerged, List.getElem?_zipWith, List.getElem?_zipWith,
    getElem?_storeAt h, getElem?_storeAt hright, hvw.size_merge, ← hvw.size_eq]
  split_ifs with hindex hupper hbelow
  · rfl
  · rfl
  · -- The slot before the stored value, the only one that looks at a size.
    by_cases hi : i < vs.length
    · have hi' : i < ws.length := hlength ▸ hi
      obtain ⟨hv, hw⟩ := hlocals.get hi hi'
      rw [List.getElem?_eq_getElem hi, List.getElem?_eq_getElem hi']
      exact congrArg some (hv.invalidate_merge hw)
    · rw [List.getElem?_eq_none (by omega)]
      rfl
  · rfl

/-- The entries of a block are determined by the sizes on the stack. -/
theorem Block.Fits.eq_of_append {b : Block}
    {sizes sizes' rest rest' : List UInt8} (h : b.Fits sizes)
    (h' : b.Fits sizes') (heq : sizes ++ rest = sizes' ++ rest') :
    sizes = sizes' := by
  cases b with
  | one => exact h.trans h'.symm
  | two =>
      rcases h with rfl | ⟨size, hne, rfl⟩
      · rcases h' with rfl | ⟨size', hne', rfl⟩
        · rfl
        · exact absurd (List.cons.inj heq).1.symm hne'
      · rcases h' with rfl | ⟨size', hne', rfl⟩
        · exact absurd (List.cons.inj heq).1 hne
        · rw [(List.cons.inj heq).1]

theorem forall₂_of_append {R : Value → Value → Prop}
    {vs vs' ws ws' : List Value} (h : List.Forall₂ R (vs ++ vs') (ws ++ ws'))
    (hlength : vs.length = ws.length) :
    List.Forall₂ R vs ws ∧ List.Forall₂ R vs' ws' := by
  have htake := List.forall₂_take_append _ _ _ h
  have hdrop := List.forall₂_drop_append _ _ _ h
  rw [← hlength, List.take_left] at htake
  rw [← hlength, List.drop_left] at hdrop
  exact ⟨htake, hdrop⟩

/-- Two stacks that match have blocks of the same number of entries on top. -/
theorem Block.Fits.matches_of_append {b : Block} {vs vs' ws ws' : List Value}
    (h : b.Fits (vs.map (·.size))) (h' : b.Fits (ws.map (·.size)))
    (happend : List.Forall₂ Value.Matches (vs ++ vs') (ws ++ ws')) :
    List.Forall₂ Value.Matches vs ws ∧ List.Forall₂ Value.Matches vs' ws' := by
  have hsizes := sizes_eq_of_matches happend
  rw [List.map_append, List.map_append] at hsizes
  have hlength := congrArg List.length (h.eq_of_append h' hsizes)
  rw [List.length_map, List.length_map] at hlength
  exact forall₂_of_append happend hlength

/-- A local variable that can be read on both sides can be read from the merged
ones. -/
theorem read_zipWith_merge {vs ws : List Value} {i : Nat} {size : UInt8}
    {v w v' w' : Value}
    (hlocals : List.Forall₂ (fun v w : Value => v.Regular ∧ w.Regular) vs ws)
    (hv : vs[i]? = some v) (hw : ws[i]? = some w)
    (hread : v.read size = some v') (hread' : w.read size = some w') :
    (List.zipWith Value.merge vs ws)[i]? = some (v.merge w) ∧
      (v.merge w).read size = some (v'.merge w') := by
  obtain ⟨hi, rfl⟩ := List.getElem?_eq_some_iff.mp hv
  obtain ⟨hi', rfl⟩ := List.getElem?_eq_some_iff.mp hw
  obtain ⟨hregular, hregular'⟩ := hlocals.get hi hi'
  refine ⟨?_, hregular.read_merge hregular' hread hread'⟩
  rw [List.getElem?_zipWith, hv, hw]

/-! ## Exchanges -/

namespace Effect.Exchange

variable {e : Effect}
    {locals locals₁ taken taken₁ given given₁ after after₁ : List Value}

/-- What an effect takes is determined by the sizes on the stack. -/
theorem sizes_eq {rest rest₁ : List UInt8} {read : UInt8 → Value → Option Value}
    (hx : e.Exchange read locals taken given after)
    (hx₁ : e.Exchange read locals₁ taken₁ given₁ after₁)
    (heq : taken.map (·.size) ++ rest = taken₁.map (·.size) ++ rest₁) :
    taken.map (·.size) = taken₁.map (·.size) := by
  cases hx with
  | consume hsizes =>
      cases hx₁ with
      | consume hsizes₁ => exact hsizes.trans hsizes₁.symm
  | drop hfits =>
      cases hx₁ with
      | drop hfits₁ => exact hfits.eq_of_append hfits₁ heq
  | copy hfits =>
      cases hx₁ with
      | copy hfits₁ => exact hfits.eq_of_append hfits₁ heq
  | copyUnder ha hb =>
      cases hx₁ with
      | copyUnder ha₁ hb₁ =>
          simp only [List.map_append, List.append_assoc] at heq ⊢
          have hfirst := ha.eq_of_append ha₁ heq
          rw [hfirst, List.append_cancel_left_eq] at heq
          rw [hfirst, hb.eq_of_append hb₁ heq]
  | swap ha hb =>
      cases hx₁ with
      | swap ha₁ hb₁ =>
          rw [List.map_append, List.map_append, ha.trans ha₁.symm,
            hb.trans hb₁.symm]
  | load =>
      cases hx₁ with
      | load => rfl
  | store hsize =>
      cases hx₁ with
      | store hsize₁ =>
          rw [List.map_singleton, List.map_singleton, hsize, hsize₁]
  | read =>
      cases hx₁ with
      | read => rfl
  | recast hsize =>
      cases hx₁ with
      | recast hsize₁ =>
          rw [List.map_singleton, List.map_singleton, hsize, hsize₁]

/-- Two exchanges of an effect merge to one, and leave entries of the same
sizes. -/
theorem merge (hx : e.Exchange Value.read locals taken given after)
    (hx₁ : e.Exchange Value.read locals₁ taken₁ given₁ after₁)
    (hlocals : List.Forall₂ (fun v w : Value => v.Regular ∧ w.Regular) locals
      locals₁)
    (htaken : List.Forall₂ Value.Matches taken taken₁) :
    e.Exchange Value.read (List.zipWith Value.merge locals locals₁)
        (List.zipWith Value.merge taken taken₁)
        (List.zipWith Value.merge given given₁)
        (List.zipWith Value.merge after after₁) ∧
      given.map (·.size) = given₁.map (·.size) := by
  -- What is taken keeps its sizes, so blocks stay blocks.
  have hfits : ∀ {b : Block} {vs ws : List Value},
      List.Forall₂ Value.Matches vs ws → b.Fits (vs.map (·.size)) →
        b.Fits ((List.zipWith Value.merge vs ws).map (·.size)) := by
    intro b vs ws hvs hblock
    rwa [sizes_zipWith_merge hvs]
  cases hx with
  | @consume sizes result taken hconsume =>
      cases hx₁ with
      | consume =>
          have hself : List.zipWith Value.merge result.toList result.toList =
              result.toList := by
            simp
          rw [hself]
          exact ⟨.consume ((sizes_zipWith_merge htaken).trans hconsume), rfl⟩
  | drop hblock =>
      cases hx₁ with
      | drop => exact ⟨.drop (hfits htaken hblock), rfl⟩
  | copy hblock =>
      cases hx₁ with
      | copy =>
          rw [List.zipWith_append htaken.length_eq]
          exact ⟨.copy (hfits htaken hblock),
            sizes_eq_of_matches (List.rel_append htaken htaken)⟩
  | copyUnder ha hb =>
      cases hx₁ with
      | copyUnder ha₁ =>
          obtain ⟨htop, hbelow⟩ := ha.matches_of_append ha₁ htaken
          rw [List.zipWith_append htaken.length_eq,
            List.zipWith_append htop.length_eq]
          exact ⟨.copyUnder (hfits htop ha) (hfits hbelow hb),
            sizes_eq_of_matches (List.rel_append htaken htop)⟩
  | swap ha hb =>
      cases hx₁ with
      | swap ha₁ hb₁ =>
          obtain ⟨htop, hbelow⟩ := ha.matches_of_append ha₁ htaken
          rw [List.zipWith_append htop.length_eq,
            List.zipWith_append hbelow.length_eq]
          exact ⟨.swap (hfits htop ha) (hfits hbelow hb),
            sizes_eq_of_matches (List.rel_append hbelow htop)⟩
  | load hindex hv hread =>
      cases hx₁ with
      | load _ hw hread₁ =>
          obtain ⟨hget, hmerged⟩ :=
            read_zipWith_merge hlocals hv hw hread hread₁
          refine ⟨.load hindex hget hmerged, ?_⟩
          obtain ⟨rfl, -, -, hsize⟩ := Value.read_eq_some_iff.mp hread
          obtain ⟨rfl, -, -, hsize₁⟩ := Value.read_eq_some_iff.mp hread₁
          rw [List.map_singleton, List.map_singleton, hsize, hsize₁]
  | @store index size v hsize hadmits =>
      cases hx₁ with
      | store =>
          cases htaken with
          | cons hvw =>
              rw [← Frame.storeAt_zipWith_merge hlocals hvw hadmits.2]
              refine ⟨.store (hvw.size_merge.trans hsize) ?_, rfl⟩
              rwa [hvw.size_merge, List.length_zipWith, ← hlocals.length_eq,
                Nat.min_self]
  | read hindex hv hread =>
      cases hx₁ with
      | read _ hw hread₁ =>
          obtain ⟨hget, hmerged⟩ :=
            read_zipWith_merge hlocals hv hw hread hread₁
          exact ⟨.read hindex hget hmerged, rfl⟩
  | recast hsize =>
      cases hx₁ with
      | recast =>
          refine ⟨?_, sizes_eq_of_matches htaken⟩
          cases htaken with
          | cons hvw => exact .recast (hvw.size_merge.trans hsize)

end Effect.Exchange

/-! ## Frames -/

/-- Merging the second frame into the first succeeds and gives the third. -/
def Frame.MergesTo (f g joined : Frame) : Prop :=
  ∃ changed, f.merge g = .ok (joined, changed)

theorem Frame.mergesTo_iff {f g joined : Frame} :
    f.MergesTo g joined ↔
      f.locals.length = g.locals.length ∧
        f.stack.map (·.size) = g.stack.map (·.size) ∧ joined = f.join g := by
  simp only [MergesTo, merge_eq_ok_iff, exists_and_left, exists_eq, and_true]

theorem Frame.regular_of_known {f : Frame} (hf : SlotInvariant.known.Holds f) :
    f.Regular :=
  ⟨hf.locals, fun v hv => (hf.stack v hv).regular⟩

/-- Joining twice in one order or the other, below an exception that is
caught. -/
theorem Frame.caught_join_caught {f g f' g' : Frame} (hf : f.Regular)
    (hg : g.Regular) (hf' : f'.Regular) (hg' : g'.Regular) :
    (f.join g).caught.join (f'.join g').caught =
      (f.caught.join f'.caught).join (g.caught.join g'.caught) := by
  have hlocals := zipWith_merge_comm_of_regular hf.1 hg.1 hf'.1 hg'.1
  have hstack : List.zipWith Value.merge [Value.nonNull] [Value.nonNull] =
      [Value.nonNull] := rfl
  simp only [join, caught, hlocals, hstack]

namespace Transfer

variable {f g f' g' : Frame} {insn : Instruction}

/-- The join of the results of an instruction, which have stacks of one shape,
is its result on the join. -/
theorem step_join (hf : SlotInvariant.known.Holds f)
    (hg : SlotInvariant.known.Holds g)
    (hlocals : f.locals.length = g.locals.length)
    (hsizes : f.stack.map (·.size) = g.stack.map (·.size))
    (hstep : step f insn = .ok f') (hstep' : step g insn = .ok g') :
    step (f.join g) insn = .ok (f'.join g') ∧
      f'.stack.map (·.size) = g'.stack.map (·.size) := by
  have hjoinable := Frame.joinable_of_regular (Frame.regular_of_known hf)
    (Frame.regular_of_known hg) hlocals hsizes
  have hall := forall₂_matches hf.stack hg.stack hsizes
  have hafter := (hf.step hstep).stack
  have hafter' := (hg.step hstep').stack
  obtain ⟨e, taken, given, rest, locals, heffect, hx, hstack, -, hroom, rfl⟩ :=
    step_eq_ok_iff_exchange.mp hstep
  obtain ⟨e₁, taken₁, given₁, rest₁, locals₁, heffect₁, hx₁, hstack₁, -, -,
    rfl⟩ :=
    step_eq_ok_iff_exchange.mp hstep'
  obtain rfl : e = e₁ := Except.ok.inj (heffect.symm.trans heffect₁)
  -- Both stacks are divided at the same entry.
  rw [hstack, hstack₁, List.map_append, List.map_append] at hsizes
  have hlength := congrArg List.length (hx.sizes_eq hx₁ hsizes)
  rw [List.length_map, List.length_map] at hlength
  rw [hstack, hstack₁] at hall
  obtain ⟨htaken, hrest⟩ := forall₂_of_append hall hlength
  obtain ⟨hmerged, hgivenSizes⟩ := hx.merge hx₁ hjoinable.1 htaken
  have hgivenMatches : List.Forall₂ Value.Matches given given₁ :=
    forall₂_matches (fun v hv => hafter v (List.mem_append_left rest hv))
      (fun v hv => hafter' v (List.mem_append_left rest₁ hv)) hgivenSizes
  have htakenCount := slotCount_eq_of_sizes (sizes_zipWith_merge htaken)
  have hgivenCount := slotCount_eq_of_sizes (sizes_zipWith_merge hgivenMatches)
  refine ⟨step_eq_ok_iff_exchange.mpr
    ⟨e, _, _, List.zipWith Value.merge rest rest₁, _, heffect, hmerged,
      ?_, ?_, ?_, ?_⟩, ?_⟩
  · change List.zipWith Value.merge f.stack g.stack = _
    rw [hstack, hstack₁, List.zipWith_append hlength]
  · refine Frame.zipWith_merge_holds hgivenMatches ?_
    intro v w hvw
    rw [Value.Stackable, hvw.size_merge]
    exact hvw.left.2
  · rw [htakenCount]
    refine hroom.imp ?_ ?_
    · rintro rfl
      rfl
    · intro hle
      rw [hgivenCount]
      exact hle
  · rw [htakenCount, hgivenCount, ← List.zipWith_append hgivenMatches.length_eq]
    rfl
  · exact sizes_eq_of_matches (List.rel_append hgivenMatches hrest)

/-- Merging two frames and carrying out an instruction gives the frame that
carrying out the instruction on both and merging the results gives, and the same
holds of the frames that flow into an exception handler.  So the results are in
order if the frames are. -/
theorem step_distributes_over_merge (hf : SlotInvariant.known.Holds f)
    (hg : SlotInvariant.known.Holds g)
    (hlocals : f.locals.length = g.locals.length)
    (hsizes : f.stack.map (·.size) = g.stack.map (·.size))
    (hstep : step f insn = .ok f') (hstep' : step g insn = .ok g') :
    (∃ u u', f.MergesTo g u ∧ f'.MergesTo g' u' ∧ step u insn = .ok u' ∧
      ∀ h k, Analysis.handlerFrame f f' = .ok h →
        Analysis.handlerFrame g g' = .ok k →
        ∃ w, h.MergesTo k w ∧ Analysis.handlerFrame u u' = .ok w) ∧
      (f.SlotLe g → f'.SlotLe g') := by
  have hregular := Frame.regular_of_known hf
  have hregular' := Frame.regular_of_known hg
  have hafter := hregular.step hstep
  have hafter' := hregular'.step hstep'
  have hlength := length_locals_of_relaxedStep (relaxedStep_of_step hstep)
  have hlength' := length_locals_of_relaxedStep (relaxedStep_of_step hstep')
  have hlocals' : f'.locals.length = g'.locals.length := by
    rw [hlength, hlength', hlocals]
  obtain ⟨hjoin, hsizes'⟩ := step_join hf hg hlocals hsizes hstep hstep'
  constructor
  · refine ⟨f.join g, f'.join g', Frame.mergesTo_iff.mpr ⟨hlocals, hsizes, rfl⟩,
      Frame.mergesTo_iff.mpr ⟨hlocals', hsizes', rfl⟩, hjoin, ?_⟩
    intro h k hhandler hhandler'
    obtain ⟨-, hroom, rfl⟩ := Analysis.handlerFrame_eq_ok_iff.mp hhandler
    obtain ⟨-, -, rfl⟩ := Analysis.handlerFrame_eq_ok_iff.mp hhandler'
    refine ⟨_, Frame.mergesTo_iff.mpr ⟨?_, rfl, rfl⟩, ?_⟩
    · simp only [Frame.join, Frame.caught, List.length_zipWith, hlocals,
        hlocals']
    · refine Analysis.handlerFrame_eq_ok_iff.mpr ⟨?_, hroom, ?_⟩
      · simp only [Frame.join, List.length_zipWith, hlength, hlength']
      · exact (Frame.caught_join_caught hregular hregular' hafter hafter').symm
  · rw [Frame.slotLe_iff_below hregular hregular',
      Frame.slotLe_iff_below hafter hafter']
    intro hle
    exact hle.step hstep' (relaxedStep_of_step hstep)

/-- A frame whose first local variable takes two slots. -/
def wideFrame : Frame where
  locals := [.primitive 2, .conflict, .empty]
  stack := [.null]
  slots := 1
  maxStack := 1

/-- A frame of the same shape whose local variables take one slot each. -/
def narrowFrame : Frame where
  locals := [.nullable, .null, .nonNull]
  stack := [.nonNull]
  slots := 1
  maxStack := 1

/-- Stores a reference in the second local variable. -/
def storeSecond : Instruction := .var ⟨58⟩ 1

/-- Storing to the second local variable makes the first one unusable in one of
the frames only, and in their merge. -/
theorem store_distributes_over_merge :
    ∃ f' g', SlotInvariant.known.Holds wideFrame ∧
      SlotInvariant.known.Holds narrowFrame ∧
      step wideFrame storeSecond = .ok f' ∧
      step narrowFrame storeSecond = .ok g' ∧
      f'.locals = [.conflict, .null, .empty] ∧
      g'.locals = [.nullable, .nonNull, .nonNull] ∧
      ∃ u u' h k w, wideFrame.MergesTo narrowFrame u ∧ f'.MergesTo g' u' ∧
        step u storeSecond = .ok u' ∧
        Analysis.handlerFrame wideFrame f' = .ok h ∧
        Analysis.handlerFrame narrowFrame g' = .ok k ∧ h.MergesTo k w ∧
        Analysis.handlerFrame u u' = .ok w := by
  have hwide : SlotInvariant.known.Holds wideFrame :=
    ⟨show ∀ v ∈ wideFrame.locals, v.Regular by decide,
      show ∀ v ∈ wideFrame.stack, v.Known by decide⟩
  have hnarrow : SlotInvariant.known.Holds narrowFrame :=
    ⟨show ∀ v ∈ narrowFrame.locals, v.Regular by decide,
      show ∀ v ∈ narrowFrame.stack, v.Known by decide⟩
  refine ⟨_, _, hwide, hnarrow, rfl, rfl, rfl, rfl, ?_⟩
  obtain ⟨⟨u, u', hmerge, hmerge', hstep, hhandlers⟩, -⟩ :=
    step_distributes_over_merge hwide hnarrow rfl rfl
      (show step wideFrame storeSecond = .ok _ from rfl) rfl
  obtain ⟨w, hw, hhandler⟩ := hhandlers _ _ rfl rfl
  exact ⟨u, u', _, _, w, hmerge, hmerge', hstep, rfl, rfl, hw, hhandler⟩

end Transfer
end Nullness
