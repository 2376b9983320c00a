import Nullness.Proofs.Acceptance
import Nullness.Proofs.LeastSolution
import Nullness.Proofs.Soundness

/-!
# Monotonicity in the annotations

The less is known about the parameters of a method, the less the analysis knows.
If the nullabilities of the reference parameters go up, then so does the entry
frame, and with it the least solution of the data-flow equations.  So the frames
of the analysis go up, and every position that was flagged stays flagged.

This compares solutions, and does not say that there is one.  That one analysis
succeeds if the other one does holds because nullability never decides
acceptance.
-/

namespace Nullness
namespace Analysis

variable {m : Method} {params : List Nullability}
  {assumed assumed' : Nullability} {f g f' g' : Frame}

/-! ## The entry frame -/

theorem parameterValue_below {declared declared' : Nullability}
    {t : Descriptor.FieldType}
    (hle : t.isReference → (effectiveNullability assumed declared).le
      (effectiveNullability assumed' declared')) :
    (parameterValue assumed declared t).Below
      (parameterValue assumed' declared' t) := by
  rw [parameterValue, parameterValue]
  split_ifs with href
  · exact Or.inr (Or.inr ⟨rfl, hle href⟩)
  · exact Value.below_refl _

theorem size_parameterValue (assumed declared assumed' declared' : Nullability)
    (t : Descriptor.FieldType) :
    (parameterValue assumed declared t).size =
      (parameterValue assumed' declared' t).size :=
  Value.size_eq_of_kind_eq
    (kind_parameterValue assumed assumed' declared declared' t)

theorem storeLocal_below {index : Nat} {v w : Value} (hle : f.Below g)
    (hsize : v.size = w.size) (hvw : v.Below w)
    (hf : storeLocal f index v = .ok f') (hg : storeLocal g index w = .ok g') :
    f'.Below g' := by
  obtain ⟨-, rfl⟩ := storeLocal_eq_ok_iff.mp hf
  obtain ⟨-, rfl⟩ := storeLocal_eq_ok_iff.mp hg
  have hlocals : Lift (belowRel Unit).content g.locals fun _ => f.locals :=
    lift_forall_iff.mpr fun _ => hle.1
  have hentry : (belowRel Unit).entry w fun _ => v := fun _ => ⟨hsize, hvw⟩
  have hstored := (belowRel Unit).lift_storeAt hlocals hentry
    (Int64.ofNat index).toInt.toNat
  exact ⟨lift_forall_iff.mp hstored (), hle.2⟩

theorem storeParameters_below {types : List Descriptor.FieldType}
    {param index : Nat}
    (hparams : ∀ i t, types[i]? = some t → t.isReference →
      (effectiveNullability assumed (m.paramAt (param + i : Nat))).le
        (effectiveNullability assumed'
          (Method.paramAt { m with params := params } (param + i : Nat))))
    (hle : f.Below g)
    (hf : storeParameters m assumed param index f types = .ok f')
    (hg : storeParameters { m with params := params } assumed' param index g
      types = .ok g') : f'.Below g' := by
  induction types generalizing param index f g with
  | nil =>
      cases hf
      cases hg
      exact hle
  | cons t types ih =>
      rw [storeParameters] at hf hg
      split at hf
      · cases hf
      · rename_i f₁ hstore
        split at hg
        · cases hg
        · rename_i g₁ hstore'
          have hvalue : (parameterValue assumed (m.paramAt param) t).Below
              (parameterValue assumed'
                (Method.paramAt { m with params := params } param) t) :=
            parameterValue_below (hparams 0 t rfl)
          refine ih ?_ (storeLocal_below hle (size_parameterValue ..) hvalue
            hstore hstore') hf hg
          intro i u hu href
          have hindex : param + 1 + i = param + (i + 1) := by omega
          rw [hindex]
          exact hparams (i + 1) u hu href

/-- For every reference parameter of a method, its nullability in one analysis
adds nothing to the one in another analysis, which assumes another nullability
and finds others declared. -/
def ParamsLe (assumed assumed' : Nullability) (m : Method)
    (params : List Nullability) : Prop :=
  ∀ t, Descriptor.parseMethodType m.desc = .ok t →
    ∀ (i : Nat) (arg : Descriptor.FieldType), t.args[i]? = some arg →
      arg.isReference →
        (effectiveNullability assumed (m.paramAt i)).le
          (effectiveNullability assumed'
            (Method.paramAt { m with params := params } i))

theorem entryFrame_below {entry entry' : Frame}
    (hparams : ParamsLe assumed assumed' m params)
    (hentry : entryFrame assumed m = .ok entry)
    (hentry' : entryFrame assumed' { m with params := params } = .ok entry') :
    entry.Below entry' := by
  obtain ⟨-, -, t, f, hparse, -, hreceiver, hstore⟩ :=
    entryFrame_eq_ok_iff.mp hentry
  obtain ⟨-, -, t', f', hparse', -, hreceiver', hstore'⟩ :=
    entryFrame_eq_ok_iff.mp hentry'
  -- The descriptor and the receiver do not depend on the annotations.
  obtain rfl : t = t' := Except.ok.inj (hparse.symm.trans hparse')
  obtain rfl : f = f' := Except.ok.inj (hreceiver.symm.trans hreceiver')
  have hargs : ∀ i arg, t.args[i]? = some arg → arg.isReference →
      (effectiveNullability assumed (m.paramAt (0 + i : Nat))).le
        (effectiveNullability assumed'
          (Method.paramAt { m with params := params } (0 + i : Nat))) := by
    intro i arg harg href
    rw [Nat.zero_add]
    exact hparams t hparse i arg harg href
  exact storeParameters_below hargs (Frame.below_refl f) hstore hstore'

/-! ## The frames and the diagnosis -/

theorem Fixpoint.of_withParams {entry : Frame} {frames : Array (Option Frame)}
    (hfix : Fixpoint { m with params := params } entry frames) :
    Fixpoint m entry frames where
  size_eq := hfix.size_eq
  fits hf := fits_of_withParams (hfix.fits hf)
  started := hfix.started
  closed pos insn before hinsn hbefore := by
    obtain ⟨after, targets, hprop⟩ := hfix.closed pos insn before hinsn hbefore
    exact ⟨after, targets, hprop.step, hprop.successors, hprop.next,
      hprop.caught⟩

variable {frames frames' : Array (Option Frame)}

/-- The frames of the first analysis lie below those of the second one, which
satisfy the data-flow equations. -/
theorem covered_of_paramsLe (hparams : ParamsLe assumed assumed' m params)
    (hne : m.instructions ≠ []) (hok : analyze assumed m = .ok frames)
    (hok' : analyze assumed' { m with params := params } = .ok frames') :
    (∀ {pos f}, Diagnosis.frameAt? frames pos = some f → Frame.Fits m f ∧
      Covered Frame.Below (Diagnosis.frameAt? frames') pos f) ∧
      ∃ entry', Fixpoint m entry' frames' := by
  obtain ⟨entry, hentry, hfix, hstable⟩ := fixpoint_of_analyze hne hok
  have hne' : ({ m with params := params } : Method).instructions ≠ [] := hne
  obtain ⟨entry', hentry', hfix₁, -⟩ := fixpoint_of_analyze hne' hok'
  have hfix' : Fixpoint m entry' frames' := hfix₁.of_withParams
  have hstart : Covered Frame.Below (Diagnosis.frameAt? frames') 0 entry :=
    hfix'.started.lower (entryFrame_below hparams hentry hentry')
  refine ⟨?_, entry', hfix'⟩
  intro pos f hf
  exact ⟨hfix.fits hf, hstable _ hfix'.stable hstart pos f hf⟩

/-- The analysis is monotone in the nullabilities of the parameters: if they go
up, it accepts the method as before, its frames go up, and every position that
was flagged is flagged again. -/
theorem analyze_monotone_in_annotations
    (hparams : ParamsLe assumed assumed' m params) :
    (∃ frames frames', analyze assumed m = .ok frames ∧
        analyze assumed' { m with params := params } = .ok frames' ∧
        (∀ pos f, Diagnosis.frameAt? frames pos = some f →
          ∃ f', Diagnosis.frameAt? frames' pos = some f' ∧ f.Le f') ∧
        ∀ pos ∈ Diagnosis.diagnose frames m.instructions,
          pos ∈ Diagnosis.diagnose frames' m.instructions) ∨
      ∃ failure, analyze assumed m = .error failure ∧
        analyze assumed' { m with params := params } = .error failure := by
  rcases map_eq_map_cases (map_shapes_analyze assumed assumed' m params) with
    ⟨frames, frames', hok, hok', -⟩ | hfailure
  · refine Or.inl ⟨frames, frames', hok, hok', ?_⟩
    by_cases hne : m.instructions = []
    · have hframes : frames = #[] := by simpa [analyze, hne, eq_comm] using hok
      rw [hframes, hne]
      exact ⟨by simp [Diagnosis.frameAt?], by simp [Diagnosis.diagnose]⟩
    · obtain ⟨hcovered, entry', hfix'⟩ :=
        covered_of_paramsLe hparams hne hok hok'
      constructor
      · intro pos f hf
        obtain ⟨hfits, f', hf', hle⟩ := hcovered hf
        have hfits' := hfix'.fits hf'
        refine ⟨f', hf', hfits.maxStack_eq.trans hfits'.maxStack_eq.symm, ?_⟩
        exact (Frame.slotLe_iff_below hfits.regular hfits'.regular).mpr hle
      · intro pos hpos
        obtain ⟨insn, f, v, hinsn, hf, hreceiver, hviolation⟩ :=
          Diagnosis.mem_diagnose_iff.mp hpos
        exact hfix'.mem_diagnose (hcovered hf).2 hinsn hreceiver hviolation
  · exact Or.inr hfailure

/-- A method that reads a field of its parameter, which is declared not to be
null. -/
def readNext : Method where
  owner := text "Node"
  name := text "next"
  desc := text "(LNode;)LNode;"
  isStatic := true
  maxStack := 1
  maxLocals := 1
  instructions := [
    .var ⟨25⟩ 0, -- aload 0
    .field .getfield (text "Node") (text "next") (text "LNode;"),
    .plain ⟨176⟩] -- areturn
  handlers := []
  params := [.nonNull]

theorem paramsLe_readNext : ParamsLe .unknown .unknown readNext [] := by
  have hparse : Descriptor.parseMethodType readNext.desc =
      .ok ⟨[⟨.object, text "LNode;"⟩], ⟨.object, text "LNode;"⟩⟩ := by
    decide +kernel
  intro t ht i arg harg _
  rw [hparse] at ht
  cases ht
  cases i with
  | zero => decide
  | succ i => simp at harg

theorem analyze_monotone_in_annotations_readNext :
    ParamsLe .unknown .unknown readNext [] ∧
      ((∃ frames frames', analyze .unknown readNext = .ok frames ∧
          analyze .unknown { readNext with params := [] } = .ok frames' ∧
          (∀ pos f, Diagnosis.frameAt? frames pos = some f →
            ∃ f', Diagnosis.frameAt? frames' pos = some f' ∧ f.Le f') ∧
          ∀ pos ∈ Diagnosis.diagnose frames readNext.instructions,
            pos ∈ Diagnosis.diagnose frames' readNext.instructions) ∨
        ∃ failure, analyze .unknown readNext = .error failure ∧
          analyze .unknown { readNext with params := [] } = .error failure) :=
  ⟨paramsLe_readNext, analyze_monotone_in_annotations paramsLe_readNext⟩

end Analysis
end Nullness
