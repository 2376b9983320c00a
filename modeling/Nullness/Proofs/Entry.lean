import Nullness.Analysis.Entry
import Nullness.Proofs.Invariant

/-!
# The entry frame

The frame before the first instruction has an empty stack and the declared
bounds, and its local variables satisfy every slot invariant that the parameters
satisfy.
-/

namespace Nullness

namespace Descriptor

theorem kind_ne_void_of_readArgs {desc t : Text} {args : List FieldType}
    {after : Text} (h : readArgs desc t = .ok (args, after)) :
    ∀ arg ∈ args, arg.kind ≠ .void := by
  fun_induction readArgs desc t generalizing args after with
  | case1 => cases h
  | case2 rest =>
      cases h
      simp
  | case3 => cases h
  | case4 => cases h
  | case5 => cases h
  | case6 b rest hopen arg after' hread hkind args' after'' hargs ih =>
      cases h
      intro arg' hmem
      rcases List.mem_cons.mp hmem with rfl | hmem
      · exact hkind
      · exact ih hargs arg' hmem

/-- No parameter of a method is void. -/
theorem kind_ne_void_of_parseMethodType {desc : Text} {t : MethodType}
    (h : parseMethodType desc = .ok t) : ∀ arg ∈ t.args, arg.kind ≠ .void := by
  unfold parseMethodType at h
  split at h
  · cases h
  · split_ifs at h
    split at h
    · cases h
    · rename_i hargs
      split at h
      · cases h
      · split_ifs at h
        cases h
        exact kind_ne_void_of_readArgs hargs

theorem size_of_kind_ne_void {t : FieldType} (h : t.kind ≠ .void) :
    t.size = 1 ∨ t.size = 2 := by
  rw [FieldType.size]
  cases hkind : t.kind <;> simp_all [Kind.size]

end Descriptor

/-- A sound frame with the declared bounds of a method. -/
structure Frame.Fits (m : Method) (f : Frame) : Prop where
  sound : f.Sound
  length_locals : f.locals.length = m.maxLocals.toInt.toNat
  maxStack_eq : f.maxStack = m.maxStack.toInt.toNat

namespace Analysis

theorem effectiveNullability_ne_unknown (assumed declared : Nullability) :
    effectiveNullability assumed declared ≠ .unknown := by
  rw [effectiveNullability]
  split_ifs with hdeclared hassumed
  · decide
  · exact hassumed
  · exact hdeclared

theorem parameterValue_known {assumed declared : Nullability}
    {t : Descriptor.FieldType} (h : t.kind ≠ .void) :
    (parameterValue assumed declared t).Known := by
  rw [parameterValue]
  split_ifs
  · exact ⟨effectiveNullability_ne_unknown assumed declared, Or.inl rfl⟩
  · exact ⟨Nullability.nonNull_ne_unknown, Descriptor.size_of_kind_ne_void h⟩

/-- Storing a local variable changes nothing but the local variables. -/
theorem storeLocal_eq_ok_iff {f f' : Frame} {index : Nat} {v : Value} :
    storeLocal f index v = .ok f' ↔
      Frame.Admits f.locals.length (Int64.ofNat index) v.size ∧
        f' = f.withLocals
          (Frame.storeAt f.locals (Int64.ofNat index).toInt.toNat v) := by
  refine Iff.trans ?_ Frame.setLocal_eq_ok_iff
  rw [storeLocal]
  cases Frame.setLocal (Int64.ofNat index) v f with
  | error failure g => simp
  | ok u g => simp

variable {I : SlotInvariant} {assumed : Nullability} {m : Method}

/-- The frame in which the receiver is stored, if there is one, and nothing
else. -/
def receiverFrame (m : Method) : Except (Failure Frame.Error) Frame :=
  if m.isStatic then
    .ok (Frame.new m.maxLocals.toInt.toNat m.maxStack.toInt.toNat)
  else storeLocal (Frame.new m.maxLocals.toInt.toNat m.maxStack.toInt.toNat) 0
    .nonNull

/-- Everything that it takes for a method to have an entry frame. -/
theorem entryFrame_eq_ok_iff {entry : Frame} :
    entryFrame assumed m = .ok entry ↔
      0 ≤ m.maxStack.toInt ∧ 0 ≤ m.maxLocals.toInt ∧
        ∃ t f, Descriptor.parseMethodType m.desc = .ok t ∧
          ((t.argSlots + receiverSlots m : Nat) : Int) ≤ m.maxLocals.toInt ∧
          receiverFrame m = .ok f ∧
          storeParameters m assumed 0 (receiverSlots m) f t.args =
            .ok entry := by
  rw [entryFrame]
  by_cases hbounds : m.maxStack.toInt < 0 ∨ m.maxLocals.toInt < 0
  · rw [if_pos hbounds]
    refine iff_of_false (by simp) ?_
    rintro ⟨hstack, hlocals, -⟩
    omega
  · rw [if_neg hbounds, and_iff_right (by omega), and_iff_right (by omega)]
    cases hparse : Descriptor.parseMethodType m.desc with
    | error e => simp
    | ok t =>
        dsimp only
        by_cases hslots :
            m.maxLocals.toInt < ((t.argSlots + receiverSlots m : Nat) : Int)
        · rw [if_pos hslots]
          refine iff_of_false (by simp) ?_
          rintro ⟨t', f, ht, hle, -⟩
          cases ht
          omega
        · have hle : ((t.argSlots + receiverSlots m : Nat) : Int) ≤
              m.maxLocals.toInt := by omega
          rw [if_neg hslots]
          by_cases hstatic : m.isStatic
          · have hzero : receiverSlots m = 0 := if_pos hstatic
            have hframe : receiverFrame m = .ok
                (Frame.new m.maxLocals.toInt.toNat m.maxStack.toInt.toNat) :=
              if_pos hstatic
            rw [if_pos hstatic, hframe]
            constructor
            · intro h
              exact ⟨t, _, rfl, hle, rfl, by rwa [hzero]⟩
            · rintro ⟨t', f, ⟨⟩, -, ⟨⟩, h⟩
              rwa [hzero] at h
          · have hone : receiverSlots m = 1 := if_neg hstatic
            have hframe : receiverFrame m = storeLocal
                (Frame.new m.maxLocals.toInt.toNat m.maxStack.toInt.toNat) 0
                .nonNull := if_neg hstatic
            rw [if_neg hstatic, hframe]
            cases storeLocal (Frame.new m.maxLocals.toInt.toNat
                m.maxStack.toInt.toNat) 0 .nonNull with
            | error failure => simp
            | ok f =>
                constructor
                · intro h
                  exact ⟨t, f, rfl, hle, rfl, by rwa [hone]⟩
                · rintro ⟨t', f, ⟨⟩, -, ⟨⟩, h⟩
                  rwa [hone] at h

/-- A value that is passed to a method: its receiver, or one of its
parameters. -/
inductive Passed (assumed : Nullability) (m : Method) : Value → Prop
  | receiver : Passed assumed m .nonNull
  | parameter {t : Descriptor.FieldType} (ht : t.kind ≠ .void) (index : Int) :
      Passed assumed m (parameterValue assumed (m.paramAt index) t)

section Induction

variable {P : Frame → Prop}
  (hstore : ∀ {f f' : Frame} {index : Nat} {v : Value}, Passed assumed m v →
    P f → storeLocal f index v = .ok f' → P f')

include hstore

theorem storeParameters_induction {f f' : Frame} {param index : Nat}
    {types : List Descriptor.FieldType}
    (htypes : ∀ t ∈ types, t.kind ≠ .void) (hf : P f)
    (h : storeParameters m assumed param index f types = .ok f') : P f' := by
  induction types generalizing f param index with
  | nil =>
      cases h
      exact hf
  | cons t types ih =>
      obtain ⟨ht, hrest⟩ := List.forall_mem_cons.mp htypes
      rw [storeParameters] at h
      split at h
      · cases h
      · rename_i g hg
        exact ih hrest (hstore (.parameter ht param) hf hg) h

/-- The entry frame has every property of the empty frame that is kept when what
is passed is stored. -/
theorem entryFrame_induction {entry : Frame}
    (hnew : P (Frame.new m.maxLocals.toInt.toNat m.maxStack.toInt.toNat))
    (h : entryFrame assumed m = .ok entry) : P entry := by
  obtain ⟨-, -, t, f, ht, -, hreceiver, hparams⟩ := entryFrame_eq_ok_iff.mp h
  have hargs := Descriptor.kind_ne_void_of_parseMethodType ht
  refine storeParameters_induction hstore hargs ?_ hparams
  rw [receiverFrame] at hreceiver
  split_ifs at hreceiver
  · cases hreceiver
    exact hnew
  · exact hstore .receiver hnew hreceiver

end Induction

/-- A frame that differs from another one only in its local variables, which are
as many and satisfy an invariant. -/
structure Relocated (I : SlotInvariant) (f f' : Frame) : Prop where
  eq_withLocals : f' = f.withLocals f'.locals
  length_locals : f'.locals.length = f.locals.length
  content : ∀ w ∈ f'.locals, I.content w

theorem Relocated.storeLocal {f f' f'' : Frame} {index : Nat} {v : Value}
    (hf : Relocated I f f') (hv : I.entry v)
    (h : storeLocal f' index v = .ok f'') : Relocated I f f'' := by
  obtain ⟨-, rfl⟩ := storeLocal_eq_ok_iff.mp h
  refine ⟨?_, ?_, SlotInvariant.Holds.storeAt hf.content hv _⟩
  · rw [hf.eq_withLocals]
    rfl
  · exact (Frame.length_storeAt _ _ _).trans hf.length_locals

/-- The entry frame has the declared bounds and an empty stack, and invariants
that hold of what is passed hold of its local variables. -/
theorem relocated_of_entryFrame {entry : Frame}
    (hempty : I.content .empty) (hpassed : ∀ v, Passed assumed m v → I.entry v)
    (h : entryFrame assumed m = .ok entry) :
    Relocated I (Frame.new m.maxLocals.toInt.toNat m.maxStack.toInt.toNat)
      entry := by
  refine entryFrame_induction ?_ ?_ h
  · intro f f' index v hv hf hstore
    exact hf.storeLocal (hpassed v hv) hstore
  · refine ⟨rfl, rfl, ?_⟩
    intro w hw
    rw [Frame.new] at hw
    rw [List.eq_of_mem_replicate hw]
    exact hempty

theorem Passed.known {v : Value} (h : Passed assumed m v) : v.Known := by
  cases h with
  | receiver => exact ⟨Nullability.nonNull_ne_unknown, Or.inl rfl⟩
  | parameter ht index => exact parameterValue_known ht

/-- The entry frame is sound, has the declared bounds and an empty stack. -/
theorem fits_of_entryFrame {entry : Frame}
    (h : entryFrame assumed m = .ok entry) :
    Frame.Fits m entry ∧ entry.stack = [] := by
  have hentry : Relocated SlotInvariant.known _ entry :=
    relocated_of_entryFrame Value.regular_empty (fun _ => Passed.known) h
  obtain ⟨heq, hlength, hcontent⟩ := hentry
  rw [heq]
  refine ⟨⟨⟨⟨rfl, Nat.zero_le _⟩, hcontent,
    by simp [Frame.new, Frame.withLocals]⟩, ?_, rfl⟩, rfl⟩
  exact hlength.trans (List.length_replicate ..)

theorem storeParameters_congr {m' : Method} (hparams : m'.params = m.params)
    (param index : Nat) (f : Frame) (types : List Descriptor.FieldType) :
    storeParameters m' assumed param index f types =
      storeParameters m assumed param index f types := by
  induction types generalizing param index f with
  | nil => rfl
  | cons t types ih =>
      have hparam : m'.paramAt param = m.paramAt param := by
        rw [Method.paramAt, Method.paramAt, hparams]
      simp only [storeParameters, hparam, ih]

/-- The entry frame depends on the declaration of a method, not on its body. -/
theorem entryFrame_withBody (assumed : Nullability) (m : Method)
    (insns : List Instruction) (handlers : List Handler) :
    entryFrame assumed { m with instructions := insns, handlers := handlers } =
      entryFrame assumed m := by
  have hstore : ∀ param index f types,
      storeParameters { m with instructions := insns, handlers := handlers }
        assumed param index f types =
      storeParameters m assumed param index f types := by
    intro param index f types
    apply storeParameters_congr
    rfl
  simp only [entryFrame, hstore]
  rfl

theorem effectiveNullability_named {declared : Nullability}
    (hassumed : assumed ∈ Nullability.named)
    (hdeclared : declared ∈ Nullability.named) :
    effectiveNullability assumed declared ∈ Nullability.named := by
  rw [effectiveNullability]
  split_ifs
  · decide
  · exact hassumed
  · exact hdeclared

theorem paramAt_named (hparams : ∀ n ∈ m.params, n ∈ Nullability.named)
    (index : Int) : m.paramAt index ∈ Nullability.named := by
  rw [Method.paramAt]
  split_ifs
  · decide
  · cases hget : m.params[index.toNat]? with
    | none => decide
    | some n => exact hparams n (List.mem_of_getElem? hget)

/-- If annotations and the assumed nullability are named, so is what the entry
frame holds. -/
theorem named_of_entryFrame {entry : Frame}
    (hassumed : assumed ∈ Nullability.named)
    (hparams : ∀ n ∈ m.params, n ∈ Nullability.named)
    (h : entryFrame assumed m = .ok entry) :
    SlotInvariant.named.Holds entry := by
  have hpassed : ∀ v, Passed assumed m v →
      v.nullability ∈ Nullability.named := by
    rintro v (_ | ⟨-, index⟩)
    · decide
    · rw [parameterValue]
      split_ifs
      · exact effectiveNullability_named hassumed (paramAt_named hparams index)
      · change Nullability.nonNull ∈ Nullability.named
        decide
  have hempty : Value.empty.nullability ∈ Nullability.named := by decide
  have hentry : Relocated SlotInvariant.named _ entry :=
    relocated_of_entryFrame hempty hpassed h
  refine ⟨hentry.content, ?_⟩
  rw [hentry.eq_withLocals]
  simp [Frame.new, Frame.withLocals]

end Analysis
end Nullness
