import Nullness.Proofs.Fixpoint

/-!
# The frames of an analysis are well formed

Every frame that an analysis stores, at the end or on the way there, has the
declared bounds, counts the slots of its stack, and holds contents of a few
kinds only.  A value of two slots among the local variables is followed by an
unusable slot, its upper half.

The last property is about neighbours, so it does not follow slot by slot.  A
store keeps it because it also marks the slot before and the slot after.  A
merge keeps it because the unusable content absorbs every other one: if one of
two frames has a value of two slots in a place, then whatever the other one has
in the next place, the next slot of the merged frame is unusable.
-/

namespace Nullness

namespace Value

variable {v w : Value}

/-- A value of one slot whose nullability is known, or a value of two slots that
is not null. -/
def Proper (v : Value) : Prop :=
  v.nullability ≠ .unknown ∧ v.size = 1 ∨ v.nullability = .nonNull ∧ v.size = 2

/-- The content of a local variable: not set, unusable, or a proper value. -/
def Storable (v : Value) : Prop := v = empty ∨ v = conflict ∨ v.Proper

instance (v : Value) : Decidable v.Proper :=
  inferInstanceAs (Decidable (v.nullability ≠ .unknown ∧ v.size = 1 ∨
    v.nullability = .nonNull ∧ v.size = 2))

instance (v : Value) : Decidable v.Storable :=
  inferInstanceAs (Decidable (v = empty ∨ v = conflict ∨ v.Proper))

theorem Proper.known (h : v.Proper) : v.Known := by
  rcases h with ⟨hknown, hsize⟩ | ⟨hnonNull, hsize⟩
  · exact ⟨hknown, Or.inl hsize⟩
  · exact ⟨by simp [hnonNull], Or.inr hsize⟩

theorem Storable.regular (h : v.Storable) : v.Regular :=
  h.imp_right fun h => h.imp_right Proper.known

theorem Produced.proper (h : v.Produced) : v.Proper := by
  obtain ⟨hknown, hsize⟩ := h.known
  rcases hsize with hsize | hsize
  · exact Or.inl ⟨hknown, hsize⟩
  · exact Or.inr ⟨h.wide hsize, hsize⟩

theorem Proper.merge (hv : v.Proper) (hw : w.Proper) (hsize : v.size = w.size) :
    (v.merge w).Proper := by
  rw [hv.known.merge_of_size_eq hw.known hsize]
  rcases hv with ⟨hvn, hv⟩ | ⟨hvn, hv⟩
  · exact Or.inl ⟨Nullability.merge_ne_unknown hvn, hv⟩
  · rcases hw with ⟨-, hw⟩ | ⟨hwn, -⟩
    · rw [hv, hw] at hsize
      exact absurd hsize (by decide)
    · refine Or.inr ⟨?_, hv⟩
      rw [hvn, hwn]
      rfl

theorem Storable.merge (hv : v.Storable) (hw : w.Storable) :
    (v.merge w).Storable := by
  rcases hv with rfl | rfl | hv
  · rwa [hw.regular.empty_merge]
  · rw [conflict_merge]
    exact Or.inr (Or.inl rfl)
  · rcases hw with rfl | rfl | hw
    · rw [hv.known.regular.merge_empty]
      exact Or.inr (Or.inr hv)
    · rw [merge_conflict]
      exact Or.inr (Or.inl rfl)
    · by_cases hsize : v.size = w.size
      · exact Or.inr (Or.inr (hv.merge hw hsize))
      · rw [hv.known.merge_of_size_ne hw.known hsize]
        exact Or.inr (Or.inl rfl)

theorem size_invalidate_ne_two (v : Value) : v.invalidate.size ≠ 2 := by
  rw [invalidate]
  split_ifs with hsize
  · decide
  · exact hsize

/-- Only a merge with a value of two slots has two slots. -/
theorem wide_of_merge (h : (v.merge w).size = 2) : v.size = 2 ∨ w.size = 2 := by
  rw [Value.merge] at h
  split_ifs at h
  · exact Or.inl h
  · exact absurd h (by decide)
  · exact Or.inr h
  · exact Or.inl h
  · exact absurd h (by decide)
  · exact Or.inl h

end Value

/-- Proper values on the stack, and contents of the three kinds in local
variables. -/
def SlotInvariant.proper : SlotInvariant where
  entry := Value.Proper
  content := Value.Storable
  constant := Value.Produced.proper
  loaded := by
    intro size v w hv hread
    obtain ⟨rfl, hempty, hzero, -⟩ := Value.read_eq_some_iff.mp hread
    rcases hv with rfl | rfl | hv
    · exact absurd hempty (by decide)
    · exact absurd rfl hzero
    · exact hv
  stored hv := Or.inr (Or.inr hv)
  invalidated := by
    intro v hv
    rw [Value.invalidate]
    split_ifs
    · exact Or.inr (Or.inl rfl)
    · exact hv
  unusable := Or.inr (Or.inl rfl)

namespace Frame

/-! ## Values of two slots among the local variables -/

/-- Every value of two slots is followed by an unusable slot. -/
def Paired (locals : List Value) : Prop :=
  ∀ (i : Nat) (v : Value), locals[i]? = some v → v.size = 2 →
    locals[i + 1]? = some .conflict

variable {locals : List Value} {index : Nat} {v : Value}

/-- What each local variable holds after a store. -/
theorem getElem?_storeAt (h : lastWritten index v.size < locals.length)
    (i : Nat) :
    (storeAt locals index v)[i]? =
      if i = index then some v
      else if v.size = 2 ∧ i = index + 1 then some .conflict
      else if i + 1 = index then (locals[i]?).map Value.invalidate
      else locals[i]? := by
  have hindex := lt_of_lastWritten_lt h
  rw [storeAt_eq]
  dsimp only
  have hbelow : (if 0 < index then locals.modify (index - 1) Value.invalidate
      else locals)[i]? =
        if i + 1 = index then (locals[i]?).map Value.invalidate
        else locals[i]? := by
    by_cases hi : i + 1 = index
    · have hlower : index - 1 = i := by omega
      rw [if_pos (by omega), if_pos hi]
      simp [hlower]
    · rw [if_neg hi]
      split_ifs
      · have hlower : index - 1 ≠ i := by omega
        simp [hlower]
      · rfl
  have hlength : (if 0 < index then locals.modify (index - 1) Value.invalidate
      else locals).length = locals.length := by
    split_ifs <;> simp
  by_cases hwide : v.size = 2
  · rw [lastWritten, if_pos hwide] at h
    rw [if_pos hwide, List.getElem?_set, List.getElem?_set, hbelow,
      List.length_set, hlength, if_pos hindex, if_pos h]
    grind
  · rw [if_neg hwide, List.getElem?_set, hbelow, hlength, if_pos hindex]
    grind

/-- The slot before and the slot after a stored value are marked, so no value of
two slots is left without its upper half. -/
theorem Paired.storeAt (hlocals : Paired locals)
    (h : lastWritten index v.size < locals.length) :
    Paired (storeAt locals index v) := by
  intro i w hw hwide
  rw [getElem?_storeAt h] at hw ⊢
  split_ifs at hw with hi hnext hbelow
  · cases hw
    rw [if_neg (by omega), if_pos ⟨hwide, by omega⟩]
  · cases hw
    exact absurd hwide (by decide)
  · -- What was below the stored value has been invalidated if it was wide.
    obtain ⟨u, -, rfl⟩ := Option.map_eq_some_iff.mp hw
    exact absurd hwide u.size_invalidate_ne_two
  · have hconflict := hlocals i w hw hwide
    rw [if_neg hbelow, if_neg (by omega), hconflict]
    split_ifs <;> rfl

theorem Paired.zipWith_merge {locals' : List Value} (h : Paired locals)
    (h' : Paired locals') (hlength : locals.length = locals'.length) :
    Paired (List.zipWith Value.merge locals locals') := by
  intro i u hu hwide
  obtain ⟨v, w, hv, hw, rfl⟩ := List.getElem?_zipWith_eq_some.mp hu
  rw [List.getElem?_zipWith]
  rcases Value.wide_of_merge hwide with hsize | hsize
  · have hnext := h i v hv hsize
    obtain ⟨hlt, -⟩ := List.getElem?_eq_some_iff.mp hnext
    have hnext' : locals'[i + 1]? = some locals'[i + 1] :=
      List.getElem?_eq_getElem (hlength ▸ hlt)
    rw [hnext, hnext']
    exact congrArg some (Value.conflict_merge _)
  · have hnext := h' i w hw hsize
    obtain ⟨hlt, -⟩ := List.getElem?_eq_some_iff.mp hnext
    have hnext' : locals[i + 1]? = some locals[i + 1] :=
      List.getElem?_eq_getElem (hlength ▸ hlt)
    rw [hnext, hnext']
    exact congrArg some (Value.merge_conflict _)

theorem paired_replicate_empty (length : Nat) :
    Paired (List.replicate length .empty) := by
  intro i v hv hwide
  rw [List.eq_of_mem_replicate (List.mem_of_getElem? hv)] at hwide
  exact absurd hwide (by decide)

/-- An instruction writes at most one local variable, and leaves it paired. -/
theorem Paired.step {f after : Frame} {insn : Instruction}
    (hf : Paired f.locals) (h : Transfer.step f insn = .ok after) :
    Paired after.locals := by
  obtain ⟨e, taken, given, rest, locals, -, hx, -, -, -, rfl⟩ :=
    Transfer.relaxedStep_cases (Transfer.relaxedStep_of_step h)
  change Paired locals
  cases hx with
  | store hsize hadmits => exact hf.storeAt hadmits.2
  | _ => exact hf

/-! ## Well-formed frames -/

/-- What the declaration of a method says about its frames, and what the slots
of a frame hold. -/
structure WellFormed (m : Method) (f : Frame) : Prop where
  length_locals : (f.locals.length : Int) = m.maxLocals.toInt
  stack : ∀ v ∈ f.stack, v.Proper
  slots_eq : f.slots = (f.stack.map (·.size.toNat)).sum
  slots_le : (f.slots : Int) ≤ m.maxStack.toInt
  locals : ∀ v ∈ f.locals, v.Storable
  paired : Paired f.locals

/-- The contents of the slots of a well-formed frame. -/
structure Proper (f : Frame) : Prop where
  slots : SlotInvariant.proper.Holds f
  paired : Paired f.locals

variable {m : Method} {f g : Frame}

theorem Fits.wellFormed (hf : Fits m f) (hproper : f.Proper)
    (hstack : 0 ≤ m.maxStack.toInt) (hlocals : 0 ≤ m.maxLocals.toInt) :
    f.WellFormed m where
  length_locals := by
    rw [hf.length_locals]
    omega
  stack := hproper.slots.stack
  slots_eq := hf.sound.counted.slots_eq
  slots_le := by
    have hle := hf.sound.counted.slots_le
    rw [hf.maxStack_eq] at hle
    omega
  locals := hproper.slots.locals
  paired := hproper.paired

theorem Proper.step {after : Frame} {insn : Instruction} (hf : f.Proper)
    (h : Transfer.step f insn = .ok after) : after.Proper :=
  ⟨hf.slots.step h, hf.paired.step h⟩

theorem Proper.caught (hf : f.Proper) : f.caught.Proper :=
  ⟨hf.slots.caught, hf.paired⟩

theorem Proper.join (hf : f.Proper) (hg : g.Proper) (hjoinable : f.Joinable g) :
    (f.join g).Proper := by
  refine ⟨⟨?_, ?_⟩, ?_⟩
  · refine zipWith_merge_holds
      (forall₂_and_of_mem hjoinable.1 hf.slots.locals hg.slots.locals) ?_
    rintro v w ⟨-, hv, hw⟩
    exact hv.merge hw
  · refine zipWith_merge_holds
      (forall₂_and_of_mem hjoinable.2 hf.slots.stack hg.slots.stack) ?_
    rintro v w ⟨⟨hsize, -⟩, hv, hw⟩
    exact hv.merge hw hsize
  · exact hf.paired.zipWith_merge hg.paired hjoinable.1.length_eq

end Frame

namespace Analysis

open State (Holding)

variable {assumed : Nullability} {m : Method} {s : State} {entry : Frame}
  {Q : Nat → Frame → Prop}

theorem Passed.proper {v : Value} (h : Passed assumed m v) : v.Proper := by
  cases h with
  | receiver => exact Value.produced_nonNull.proper
  | @parameter t ht index =>
      rw [parameterValue]
      split_ifs
      · exact Or.inl ⟨effectiveNullability_ne_unknown _ _, rfl⟩
      · rcases Descriptor.size_of_kind_ne_void ht with hsize | hsize
        · exact Or.inl ⟨Nullability.nonNull_ne_unknown, hsize⟩
        · exact Or.inr ⟨rfl, hsize⟩

theorem proper_of_entryFrame (h : entryFrame assumed m = .ok entry) :
    entry.Proper := by
  have hslots : Relocated SlotInvariant.proper _ entry :=
    relocated_of_entryFrame (Or.inl rfl) (fun _ => Passed.proper) h
  have hstack : entry.stack = [] := (fits_of_entryFrame h).2
  refine ⟨⟨hslots.content, by simp [hstack]⟩, ?_⟩
  refine entryFrame_induction (P := fun f => Frame.Paired f.locals) ?_
    (Frame.paired_replicate_empty _) h
  intro f f' index v _ hf hstore
  obtain ⟨hadmits, rfl⟩ := storeLocal_eq_ok_iff.mp hstore
  exact hf.storeAt hadmits.2

/-- Steps, handlers and joins keep frames proper. -/
theorem stable_proper (m : Method) : Stable m fun _ f => f.Proper where
  next _ _ hbefore hstep _ _ := hbefore.step hstep
  caught := by
    intro pos insn before after current h f hinsn hfits hbefore hstep hcurrent
      hproper _ _ hframe
    have hjoinable :=
      joinable_caught hcurrent.regular (hfits.step hstep).regular
      hframe
    obtain ⟨-, -, rfl⟩ := handlerFrame_eq_ok_iff.mp hframe
    exact hproper.caught.join (hbefore.step hstep).caught hjoinable
  join _ _ _ hf hg hsizes hfp hgp := hfp.join hgp (hf.joinable hg hsizes)

/-- The states that an analysis passes through: those that a number of visits
lead to, and those in the middle of the next visit.  There, the result of the
instruction has been merged into some of its successors, or into all of them and
then into some of the handlers. -/
inductive Passing (assumed : Nullability) (m : Method) : State → Prop
  | visited {entry : Frame} {visits : Nat} {s : State}
      (henters : Enters assumed m entry)
      (hrun : run m visits (start m entry) = .ok s) : Passing assumed m s
  | following {entry before after : Frame} {visits pos : Nat} {s s' : State}
      {pending targets done : List Nat} {insn : Instruction}
      (henters : Enters assumed m entry)
      (hrun : run m visits (start m entry) = .ok s)
      (hpending : s.pending = pos :: pending)
      (hinsn : m.instructions[pos]? = some insn)
      (hbefore : s.frame? pos = some before)
      (hstep : Transfer.step before insn = .ok after)
      (hsucc : Flow.successors m.instructions pos insn = .ok targets)
      (hdone : done <+: targets)
      (hout : flowOut after (s.leave pos) done = .ok s') : Passing assumed m s'
  | catching {entry before after : Frame} {visits pos : Nat} {s s₁ s' : State}
      {pending targets : List Nat} {done : List Handler} {insn : Instruction}
      (henters : Enters assumed m entry)
      (hrun : run m visits (start m entry) = .ok s)
      (hpending : s.pending = pos :: pending)
      (hinsn : m.instructions[pos]? = some insn)
      (hbefore : s.frame? pos = some before)
      (hstep : Transfer.step before insn = .ok after)
      (hsucc : Flow.successors m.instructions pos insn = .ok targets)
      (hout : flowOut after (s.leave pos) targets = .ok s₁)
      (hdone : done <+: m.handlers)
      (hcaught : flowToHandlers pos after s₁ done = .ok s') :
      Passing assumed m s'

theorem Passing.exists_enters (h : Passing assumed m s) :
    ∃ entry, Enters assumed m entry := by
  cases h with
  | visited henters => exact ⟨_, henters⟩
  | following henters => exact ⟨_, henters⟩
  | catching henters => exact ⟨_, henters⟩

/-- A stable property of the entry frame holds of every frame on the way. -/
theorem Passing.holding (h : Passing assumed m s) (hQ : Stable m Q)
    (hentry : ∀ entry, entryFrame assumed m = .ok entry → Q 0 entry) :
    Holding m Q s := by
  have hvisited : ∀ {entry : Frame} {visits : Nat} {s : State},
      Enters assumed m entry → run m visits (start m entry) = .ok s →
        Holding m Q s := by
    intro entry visits s henters hrun
    exact ((henters.invariant_start (hentry entry henters.entry_eq)).of_run hQ
      henters.target_lt hrun).holding
  cases h with
  | visited henters hrun => exact hvisited henters hrun
  | following henters hrun hpending hinsn hbefore hstep hsucc hdone hout =>
      have hs := hvisited henters hrun
      have hfits := hs.fits hbefore
      refine (flowOut_spec hQ.join (hs.leave _) (hfits.step hstep) ?_ hout).1
      intro t ht
      have hmem := hdone.subset ht
      exact ⟨Flow.lt_of_mem_successors hsucc t hmem,
        hQ.next hinsn hfits (hs.holds hbefore) hstep hsucc hmem⟩
  | catching henters hrun hpending hinsn hbefore hstep hsucc hout hdone
    hcaught =>
      have hs := hvisited henters hrun
      have hfits := hs.fits hbefore
      have hafter := hfits.step hstep
      have hQbefore := hs.holds hbefore
      obtain ⟨hs₁, hgrows, -⟩ := flowOut_spec hQ.join (hs.leave _) hafter
        (fun t ht => ⟨Flow.lt_of_mem_successors hsucc t ht,
          hQ.next hinsn hfits hQbefore hstep hsucc ht⟩) hout
      obtain ⟨current, hcurrent, -⟩ := hgrows.rises hbefore
      refine (flowToHandlers_spec hQ.join hs₁ hcurrent hafter ?_ hcaught).1
      intro h hmem hcovers current f hfitsCurrent hQcurrent hf
      have hmem' := hdone.subset hmem
      exact ⟨henters.target_lt h hmem', hQ.caught hinsn hfits hQbefore hstep
        hfitsCurrent hQcurrent hmem' hcovers hf⟩

/-- Every frame that the analysis stores is well formed, after every visit, in
the middle of every visit and in the result. -/
theorem stored_frames_wellFormed (assumed : Nullability) (m : Method) :
    (∀ s pos f, Passing assumed m s → s.frame? pos = some f →
      f.WellFormed m) ∧
    ∀ frames pos f, analyze assumed m = .ok frames →
      Diagnosis.frameAt? frames pos = some f → f.WellFormed m := by
  have hpassing : ∀ s pos f, Passing assumed m s → s.frame? pos = some f →
      f.WellFormed m := by
    intro s pos f hs hf
    obtain ⟨entry, henters⟩ := hs.exists_enters
    obtain ⟨hstack, hlocals, -⟩ := entryFrame_eq_ok_iff.mp henters.entry_eq
    have hholding := hs.holding (stable_proper m) fun _ => proper_of_entryFrame
    exact (hholding.fits hf).wellFormed (hholding.holds hf) hstack hlocals
  refine ⟨hpassing, ?_⟩
  intro frames pos f h hf
  by_cases hne : m.instructions = []
  · rw [analyze, if_pos (by simp [hne])] at h
    cases h
    simp [Diagnosis.frameAt?] at hf
  · obtain ⟨entry, s, henters, hrun, rfl⟩ := enters_of_analyze hne h
    exact hpassing s pos f (.visited henters hrun) hf

/-- A method that sets a local variable of two slots on one of two paths. -/
def setWideOnce : Method where
  owner := text "Counter"
  name := text "set"
  desc := text "(I)V"
  isStatic := true
  maxStack := 2
  maxLocals := 3
  instructions := [
    .var ⟨21⟩ 0, -- iload 0
    .jump ⟨153⟩ 4, -- ifeq 4
    .plain ⟨9⟩, -- lconst_0
    .var ⟨55⟩ 1, -- lstore 1
    .plain ⟨177⟩] -- return
  handlers := []
  params := []

/-- The state of its analysis before the last position is visited, with the
frame that is stored there. -/
def setWideOnceState (last : Frame) (pending : List Nat) : State where
  frames :=
    let frame (stack : List Value) (slots : Nat) : Option Frame :=
      some ⟨[.primitive 1, .empty, .empty], stack, slots, 2⟩
    #[frame [] 0, frame [.primitive 1] 1, frame [] 0, frame [.primitive 2] 2,
      some last]
  pending := pending

/-- The merge at the end of the two paths, in the middle of a visit: one path
has a value of two slots where the other one has set nothing. -/
theorem stored_frames_wellFormed_setWideOnce :
    let skipped : Frame := ⟨[.primitive 1, .empty, .empty], [], 0, 2⟩
    let merged : Frame := ⟨[.primitive 1, .primitive 2, .conflict], [], 0, 2⟩
    run setWideOnce 3 (start setWideOnce skipped) =
        .ok (setWideOnceState skipped [3, 4]) ∧
      Passing .unknown setWideOnce (setWideOnceState merged [4]) ∧
      analyze .unknown setWideOnce =
        .ok (setWideOnceState merged []).frames ∧
      merged.WellFormed setWideOnce := by
  intro skipped merged
  have henters : Enters .unknown setWideOnce skipped :=
    ⟨by decide, by decide, by decide +kernel⟩
  have hrun : run setWideOnce 3 (start setWideOnce skipped) =
      .ok (setWideOnceState skipped [3, 4]) := by
    decide +kernel
  have hpassing : Passing .unknown setWideOnce
      (setWideOnceState merged [4]) := by
    have hstep : Transfer.step
        ⟨[.primitive 1, .empty, .empty], [.primitive 2], 2, 2⟩ (.var ⟨55⟩ 1) =
          .ok merged := by
      decide +kernel
    have hsucc : Flow.successors setWideOnce.instructions 3 (.var ⟨55⟩ 1) =
        .ok [4] := by
      decide +kernel
    exact .following henters hrun rfl rfl rfl hstep hsucc (List.prefix_refl _)
      (by decide +kernel)
  have hresult : analyze .unknown setWideOnce =
      .ok (setWideOnceState merged []).frames := by
    decide +kernel
  exact ⟨hrun, hpassing, hresult,
    (stored_frames_wellFormed .unknown setWideOnce).1 _ 4 merged hpassing rfl⟩

end Analysis
end Nullness
