import Nullness.Proofs.Transport

/-!
# Steps of related frames

An instruction keeps the bookkeeping of a frame: the stack bound, the number of
local variables, and the count of the slots that the stack takes.  It also keeps
every slot relation, and with it the order of frames: a frame that lies below
one on which the instruction can be carried out either cannot carry it out
because it reads an unset local variable, or ends below the result.
-/

namespace Nullness

namespace Effect

/-- Carries out an effect, except that an unset local variable can be read and
yields a value of unknown nullability. -/
def relaxedRun (e : Effect) : Frame.Action Unit :=
  e.runWith Frame.relaxedLoad

theorem loadsBy_loadLocal : LoadsBy Frame.loadLocal Value.read :=
  fun _ _ _ _ _ => Frame.loadLocal_eq_ok_iff

theorem loadsBy_relaxedLoad : LoadsBy Frame.relaxedLoad Value.relaxedRead :=
  fun _ _ _ _ _ => Frame.relaxedLoad_eq_ok_iff

variable {load : Int64 → UInt8 → Frame.Action Value}
  {read : UInt8 → Value → Option Value} {e : Effect} {f after : Frame}

/-- Everything that running an effect does. -/
theorem run_cases (hload : LoadsBy load read)
    (h : e.runWith load f = .ok () after) :
    ∃ taken given rest locals, Exchange read f.locals e taken given locals ∧
      f.stack = taken ++ rest ∧ (∀ v ∈ given, v.Stackable) ∧
      ((f.withLocals locals).restack rest (f.slots - slotCount taken)).Room
        given ∧
      after = (f.withLocals locals).restack (given ++ rest)
        (f.slots - slotCount taken + slotCount given) := by
  obtain ⟨taken, given, rest, locals, hx, hstack, hgiven⟩ :=
    exists_exchange_of_run hload h
  refine ⟨taken, given, rest, locals, hx, hstack, hgiven, ?_⟩
  rcases run_of_exchange hload hx hstack hgiven with ⟨hroom, hrun⟩ |
    ⟨-, f', hrun⟩
  · rw [h] at hrun
    injection hrun with _ hafter
    exact ⟨hroom, hafter⟩
  · rw [h] at hrun
    cases hrun

/-- An effect runs exactly if it has an exchange and there is room for what it
gives. -/
theorem runWith_eq_ok_iff (hload : LoadsBy load read) :
    e.runWith load f = .ok () after ↔
      ∃ taken given rest locals, Exchange read f.locals e taken given locals ∧
        f.stack = taken ++ rest ∧ (∀ v ∈ given, v.Stackable) ∧
        ((f.withLocals locals).restack rest (f.slots - slotCount taken)).Room
          given ∧
        after = (f.withLocals locals).restack (given ++ rest)
          (f.slots - slotCount taken + slotCount given) := by
  refine ⟨run_cases hload, ?_⟩
  rintro ⟨taken, given, rest, locals, hx, hstack, hgiven, hroom, rfl⟩
  rcases run_of_exchange hload hx hstack hgiven with ⟨-, hrun⟩ | ⟨hfull, -⟩
  · exact hrun
  · exact absurd hroom hfull

theorem Exchange.length_locals {locals taken given locals' : List Value}
    (hx : Exchange read locals e taken given locals') :
    locals'.length = locals.length := by
  cases hx with
  | store => exact Frame.length_storeAt _ _ _
  | _ => rfl

theorem Exchange.relax {locals taken given locals' : List Value}
    (hx : Exchange Value.read locals e taken given locals') :
    Exchange Value.relaxedRead locals e taken given locals' := by
  have hrelax : ∀ {size v w}, Value.read size v = some w →
      v.relaxedRead size = some w := by
    intro size v w h
    by_cases hempty : v.isEmpty
    · simp [Value.read, hempty] at h
    · rwa [Value.relaxedRead, if_neg hempty]
  cases hx with
  | consume h => exact .consume h
  | drop h => exact .drop h
  | copy h => exact .copy h
  | copyUnder ha hb => exact .copyUnder ha hb
  | swap ha hb => exact .swap ha hb
  | load hindex hv hread => exact .load hindex hv (hrelax hread)
  | store hsize hadmits => exact .store hsize hadmits
  | read hindex hv hread => exact .read hindex hv (hrelax hread)
  | recast hsize => exact .recast hsize

/-- What can be carried out can be carried out in the relaxed way. -/
theorem relaxedRun_of_run (h : e.run f = .ok () after) :
    e.relaxedRun f = .ok () after := by
  rw [run_eq_runWith] at h
  obtain ⟨taken, given, rest, locals, hx, hrest⟩ :=
    run_cases loadsBy_loadLocal h
  exact (runWith_eq_ok_iff loadsBy_relaxedLoad).mpr
    ⟨taken, given, rest, locals, hx.relax, hrest⟩

end Effect

/-! ## The transfer function -/

namespace Transfer

/-- The frame after an instruction, as `step` gives it, except that an unset
local variable can be read and yields a value of unknown nullability. -/
def relaxedStep (f : Frame) (insn : Instruction) :
    Except (Failure Error) Frame :=
  match effect insn with
  | .error e => .error (.error e)
  | .ok e =>
    match e.relaxedRun f with
    | .ok _ after => .ok after
    | .error failure _ => .error (failure.map .frame)

variable {f after : Frame} {insn : Instruction}

theorem step_eq_ok_iff :
    step f insn = .ok after ↔
      ∃ e, effect insn = .ok e ∧ e.run f = .ok () after := by
  rw [step]
  cases effect insn with
  | error e => simp
  | ok e => cases hrun : e.run f <;> simp [hrun]

/-- An instruction can be carried out exactly if its effect has an exchange and
there is room for what it gives. -/
theorem step_eq_ok_iff_exchange :
    step f insn = .ok after ↔
      ∃ e taken given rest locals, effect insn = .ok e ∧
        e.Exchange Value.read f.locals taken given locals ∧
        f.stack = taken ++ rest ∧ (∀ v ∈ given, v.Stackable) ∧
        ((f.withLocals locals).restack rest (f.slots - slotCount taken)).Room
          given ∧
        after = (f.withLocals locals).restack (given ++ rest)
          (f.slots - slotCount taken + slotCount given) := by
  simp only [step_eq_ok_iff, Effect.run_eq_runWith,
    Effect.runWith_eq_ok_iff Effect.loadsBy_loadLocal, exists_and_left]

theorem relaxedStep_eq_ok_iff :
    relaxedStep f insn = .ok after ↔
      ∃ e, effect insn = .ok e ∧ e.relaxedRun f = .ok () after := by
  rw [relaxedStep]
  cases effect insn with
  | error e => simp
  | ok e => cases hrun : e.relaxedRun f <;> simp [hrun]

theorem relaxedStep_of_step (h : step f insn = .ok after) :
    relaxedStep f insn = .ok after := by
  obtain ⟨e, heffect, hrun⟩ := step_eq_ok_iff.mp h
  exact relaxedStep_eq_ok_iff.mpr ⟨e, heffect, Effect.relaxedRun_of_run hrun⟩

/-- Everything that a relaxed step does. -/
theorem relaxedStep_cases (h : relaxedStep f insn = .ok after) :
    ∃ e taken given rest locals, effect insn = .ok e ∧
      e.Exchange Value.relaxedRead f.locals taken given locals ∧
      f.stack = taken ++ rest ∧ (∀ v ∈ given, v.Stackable) ∧
      ((f.withLocals locals).restack rest (f.slots - slotCount taken)).Room
        given ∧
      after = (f.withLocals locals).restack (given ++ rest)
        (f.slots - slotCount taken + slotCount given) := by
  obtain ⟨e, heffect, hrun⟩ := relaxedStep_eq_ok_iff.mp h
  obtain ⟨taken, given, rest, locals, hrest⟩ :=
    Effect.run_cases Effect.loadsBy_relaxedLoad hrun
  exact ⟨e, taken, given, rest, locals, heffect, hrest⟩

theorem maxStack_of_relaxedStep (h : relaxedStep f insn = .ok after) :
    after.maxStack = f.maxStack := by
  obtain ⟨e, taken, given, rest, locals, -, -, -, -, -, rfl⟩ :=
    relaxedStep_cases h
  rfl

theorem length_locals_of_relaxedStep (h : relaxedStep f insn = .ok after) :
    after.locals.length = f.locals.length := by
  obtain ⟨e, taken, given, rest, locals, -, hx, -, -, -, rfl⟩ :=
    relaxedStep_cases h
  exact hx.length_locals

theorem leavesKnown_consume_iff {sizes : List UInt8} {v : Value} :
    (Effect.consume sizes (some v)).LeavesKnown ↔
      v.nullability ≠ .unknown ∧ v.nullability ∈ Nullability.named ∧
        (v.size = 2 → v.nullability = .nonNull) := by
  simp [Effect.LeavesKnown, Effect.result?]

theorem leavesKnown_valueOfType (sizes : List UInt8)
    (t : Descriptor.FieldType) :
    (Effect.consume sizes (some (valueOfType t))).LeavesKnown := by
  rw [leavesKnown_consume_iff, valueOfType]
  split_ifs
  · decide
  · change Nullability.nonNull ≠ .unknown ∧
      Nullability.nonNull ∈ Nullability.named ∧
      (_ → Nullability.nonNull = .nonNull)
    exact ⟨by decide, by decide, fun _ => rfl⟩

theorem leavesKnown_valueOfConstant (kind : ConstantKind) :
    (Effect.consume [] (some (valueOfConstant kind))).LeavesKnown := by
  rw [leavesKnown_consume_iff, valueOfConstant]
  split_ifs <;> decide

theorem leavesKnown_fieldEffect (t : Descriptor.FieldType)
    (access : FieldAccess) : (fieldEffect t access).LeavesKnown := by
  cases access with
  | getStatic => exact leavesKnown_valueOfType _ _
  | putStatic => simp [fieldEffect, Effect.LeavesKnown, Effect.result?]
  | getField => exact leavesKnown_valueOfType _ _
  | putField => simp [fieldEffect, Effect.LeavesKnown, Effect.result?]

theorem leavesKnown_callEffect (t : Descriptor.MethodType) (receiver : Bool) :
    (callEffect t receiver).LeavesKnown := by
  rw [callEffect]
  by_cases hvoid : t.result.kind = .void
  · simp [hvoid, Effect.LeavesKnown, Effect.result?]
  · rw [if_neg hvoid]
    exact leavesKnown_valueOfType _ _

/-- The effect that the table gives for a form of instructions, if it is fixed
there. -/
def tableEffect? : Form → Option Effect
  | .plain e | .typed e | .jump e => some e
  | _ => none

theorem leavesKnown_of_form {op : Opcode} {form : Form} {e : Effect}
    (hform : op.form? = some form) (he : tableEffect? form = some e) :
    e.LeavesKnown := by
  have htable : ∀ row ∈ Opcode.table,
      ∀ e ∈ tableEffect? row.2, e.LeavesKnown := by
    decide +kernel
  rw [Opcode.form?, Option.map_eq_some_iff] at hform
  obtain ⟨row, hrow, rfl⟩ := hform
  rw [Opcode.row?] at hrow
  split_ifs at hrow
  exact htable row (List.mem_of_getElem? hrow) e he

/-- What an instruction leaves without having moved it is known. -/
theorem leavesKnown_of_effect {insn : Instruction} {e : Effect}
    (h : effect insn = .ok e) : e.LeavesKnown := by
  have hmoves : ∀ {e : Effect}, e.result? = none → e.LeavesKnown := by
    intro e hnone v hv
    rw [hnone] at hv
    cases hv
  unfold effect at h
  split at h
  · split at h <;> cases h
    rename_i hform
    exact leavesKnown_of_form hform rfl
  · split at h <;> cases h
    · exact leavesKnown_consume_iff.mpr (by decide)
    · exact leavesKnown_consume_iff.mpr (by decide)
  · rename_i op index
    cases hform : op.form? with
    | none =>
        rw [hform] at h
        cases h
    | some form =>
        rw [hform] at h
        cases form with
        | load size =>
            cases h
            exact hmoves rfl
        | store size =>
            cases h
            exact hmoves rfl
        | ret =>
            cases h
            exact hmoves rfl
        | _ => cases h
  · cases h
    exact hmoves rfl
  · split at h <;> cases h
    rename_i hform
    exact leavesKnown_of_form hform rfl
  · split at h
    · cases h
    · split at h <;> cases h
      exact leavesKnown_fieldEffect _ _
  · split at h
    · cases h
    · split_ifs at h
      split at h <;> cases h
      exact leavesKnown_callEffect _ _
  · split at h <;> cases h
    exact leavesKnown_callEffect _ _
  · split at h <;> cases h
    rename_i hform
    exact leavesKnown_of_form hform rfl
  · cases h
    exact leavesKnown_valueOfConstant _
  · cases h
    exact hmoves rfl
  · cases h
    exact hmoves rfl
  · split at h
    · cases h
    · split_ifs at h
      cases h
      exact leavesKnown_consume_iff.mpr (by decide)

end Transfer

namespace Frame

/-- The slot count is the number of slots that the stack takes, and within the
bound. -/
structure Counted (f : Frame) : Prop where
  slots_eq : f.slots = slotCount f.stack
  slots_le : f.slots ≤ f.maxStack

/-- In a frame whose slots are counted, entries can take the place of others
exactly if the bound allows what is then on the stack. -/
theorem Counted.room_iff {f : Frame} {taken given rest : List Value}
    (hf : f.Counted) (hstack : f.stack = taken ++ rest) (locals : List Value) :
    ((f.withLocals locals).restack rest (f.slots - slotCount taken)).Room
      given ↔ slotCount (given ++ rest) ≤ f.maxStack := by
  have hle := hf.slots_le
  have hslots := hf.slots_eq
  rw [hstack, slotCount_append] at hslots
  have hmax : ((f.withLocals locals).restack rest
      (f.slots - slotCount taken)).maxStack = f.maxStack := rfl
  rw [Room, restack_slots, hmax, slotCount_append]
  constructor
  · rintro (rfl | hroom)
    · rw [slotCount_nil]
      omega
    · omega
  · intro hroom
    exact Or.inr (by omega)

theorem Counted.slots_exchange {f : Frame} {taken given rest : List Value}
    (hf : f.Counted) (hstack : f.stack = taken ++ rest) :
    f.slots - slotCount taken + slotCount given =
      slotCount (given ++ rest) := by
  rw [hf.slots_eq, hstack, slotCount_append, slotCount_append]
  omega

theorem Counted.relaxedStep {f after : Frame} {insn : Instruction}
    (hf : f.Counted) (h : Transfer.relaxedStep f insn = .ok after) :
    after.Counted := by
  obtain ⟨e, taken, given, rest, locals, -, -, hstack, -, hroom, rfl⟩ :=
    Transfer.relaxedStep_cases h
  refine ⟨hf.slots_exchange hstack, ?_⟩
  rw [restack_slots, hf.slots_exchange hstack]
  exact (hf.room_iff hstack locals).mp hroom

end Frame
namespace SlotRel

variable {ι : Type} {R : SlotRel ι} {f f' : Frame} {g : ι → Frame}
  {insn : Instruction}

/-- A frame whose slots are related to those of a family of frames. -/
structure Relates (R : SlotRel ι) (f : Frame) (g : ι → Frame) : Prop where
  locals : Lift R.content f.locals (fun k => (g k).locals)
  stack : Lift R.entry f.stack (fun k => (g k).stack)

/-- A step of the upper frame determines the relaxed steps of the family: there
are frames that are related to the result, each is the only possible result of
its member, and it is reached if the member has as much room on its stack. -/
theorem Relates.step (h : R.Relates f g)
    (hstep : Transfer.step f insn = .ok f') :
    ∃ g' : ι → Frame, R.Relates f' g' ∧ ∀ k,
      (∀ after, Transfer.relaxedStep (g k) insn = .ok after → after = g' k) ∧
      ((g k).slots = f.slots → (g k).maxStack = f.maxStack →
        Transfer.relaxedStep (g k) insn = .ok (g' k)) := by
  obtain ⟨e, heffect, hrun⟩ := Transfer.step_eq_ok_iff.mp hstep
  rw [Effect.run_eq_runWith] at hrun
  obtain ⟨taken, given, rest, locals, hx, hstack, hgiven, hroom, rfl⟩ :=
    Effect.run_cases Effect.loadsBy_loadLocal hrun
  have hlift := h.stack
  rw [hstack] at hlift
  obtain ⟨takenOf, givenOf, restOf, localsOf, hsplit, hxs, htakenOf, hgivenOf,
      hrestOf, hlocalsOf⟩ :=
    R.transport (Transfer.leavesKnown_of_effect heffect) hx hgiven hlift
      h.locals
  have hsizes := hgivenOf.sizes_eq fun _ _ => R.size_eq
  refine ⟨fun k => ((g k).withLocals (localsOf k)).restack
    (givenOf k ++ restOf k)
    ((g k).slots - slotCount (takenOf k) + slotCount (givenOf k)),
    ⟨hlocalsOf, hgivenOf.append hrestOf⟩, ?_⟩
  intro k
  have hstackable : ∀ v ∈ givenOf k, v.Stackable := by
    intro v hv
    have hmem : v.size ∈ given.map (·.size) := by
      rw [← hsizes k]
      exact List.mem_map_of_mem hv
    obtain ⟨w, hw, hsize⟩ := List.mem_map.mp hmem
    have hstackable := hgiven w hw
    rwa [Value.Stackable, hsize] at hstackable
  have hlands := Effect.run_of_exchange Effect.loadsBy_relaxedLoad (hxs k)
    (hsplit k) hstackable
  constructor
  · intro after hafter
    obtain ⟨e', heffect', hrun'⟩ := Transfer.relaxedStep_eq_ok_iff.mp hafter
    rw [heffect] at heffect'
    cases heffect'
    rw [Effect.relaxedRun] at hrun'
    rcases hlands with ⟨-, hok⟩ | ⟨-, _, herror⟩
    · rw [hrun'] at hok
      injection hok
    · rw [hrun'] at herror
      cases herror
  · intro hslots hmax
    refine Transfer.relaxedStep_eq_ok_iff.mpr ⟨e, heffect, ?_⟩
    rcases hlands with ⟨-, hok⟩ | ⟨hfull, -⟩
    · exact hok
    · refine absurd ?_ hfull
      rcases hroom with rfl | hroom
      · exact Or.inl (List.length_eq_zero_iff.mp (hgivenOf.length_eq k))
      · have htaken := slotCount_eq_of_sizes
          (htakenOf.sizes_eq (fun _ _ => R.size_eq) k)
        have hgivenCount := slotCount_eq_of_sizes (hsizes k)
        refine Or.inr ?_
        simp only [Frame.restack_slots, Frame.restack_maxStack, htaken,
          hgivenCount, hslots] at hroom ⊢
        exact Nat.le_trans hroom (Nat.le_of_eq hmax.symm)

end SlotRel
end Nullness
