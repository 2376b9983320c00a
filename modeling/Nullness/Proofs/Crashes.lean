import Nullness.Proofs.ExceptionTable
import Nullness.Proofs.Mnemonics
import Nullness.Proofs.TableAccess

/-!
# Crashes of the analysis

Of all that the analysis does, only storing a value in a local variable can
reach outside a table.  The store compares the end of the value with the number
of local variables in 64-bit arithmetic; where the end is too large for that,
the comparison is passed.  So the analysis crashes exactly if it comes to a
store whose value would end behind the largest 64-bit number.

That nothing else crashes is shown for actions on frames first, where it is kept
by sequencing, and then for single visits.  A visit that crashes ends the run,
and every run that is long enough ends in the same way.
-/

namespace Nullness

/-! ## Actions that do not crash -/

namespace Frame

/-- An action does not crash, whatever the frame. -/
def Safe {α : Type} (action : Action α) : Prop :=
  ∀ f g, action f ≠ .error .crash g

variable {α β : Type}

theorem Safe.bind {action : Action α} {next : α → Action β} (h : Safe action)
    (hnext : ∀ a, Safe (next a)) : Safe (action >>= next) := by
  intro f g hcrash
  rcases haction : action f with ⟨a, f'⟩ | ⟨failure, f'⟩
  · rw [bind_of_ok haction] at hcrash
    exact hnext a f' g hcrash
  · rw [bind_of_error haction] at hcrash
    obtain ⟨rfl, -⟩ := EStateM.Result.error.inj hcrash
    exact h f f' haction

theorem safe_pure (a : α) : Safe (pure a) := by
  rintro f g ⟨⟩

theorem safe_refuse (e : Error) : Safe (refuse e : Action α) := by
  rintro f g ⟨⟩

theorem safe_pop : Safe pop := by
  intro f g hcrash
  rw [pop] at hcrash
  split at hcrash
  · cases hcrash
  · cases hcrash

theorem safe_popSized (size : UInt8) : Safe (popSized size) := by
  apply safe_pop.bind
  intro v
  split_ifs
  · exact safe_refuse _
  · exact safe_pure v

theorem safe_popSizes (sizes : List UInt8) : Safe (popSizes sizes) := by
  induction sizes with
  | nil => exact safe_pure ()
  | cons size sizes ih => exact (safe_popSized size).bind fun _ => ih

theorem safe_push (v : Value) : Safe (push v) := by
  intro f g hcrash
  rw [push] at hcrash
  split_ifs at hcrash <;> cases hcrash

theorem safe_pushAll (vs : List Value) : Safe (pushAll vs) := by
  induction vs with
  | nil => exact safe_pure ()
  | cons v vs ih => exact (safe_push v).bind fun _ => ih

theorem safe_loadLocal (index : Int64) (size : UInt8) :
    Safe (loadLocal index size) := by
  intro f g hcrash
  rw [loadLocal] at hcrash
  split at hcrash
  · cases hcrash
  · split_ifs at hcrash <;> cases hcrash

end Frame

theorem Block.safe_take (b : Block) : Frame.Safe b.take := by
  rcases b with _ | _
  · exact (Frame.safe_popSized 1).bind fun v => Frame.safe_pure [v]
  · apply Frame.safe_pop.bind
    intro v
    split_ifs
    · exact Frame.safe_pure [v]
    · exact (Frame.safe_popSized 1).bind fun w => Frame.safe_pure [w, v]

theorem Shuffle.safe_run (s : Shuffle) : Frame.Safe s.run := by
  rcases s with top | top | ⟨top, below⟩ | _
  · exact top.safe_take.bind fun _ => Frame.safe_pure ()
  · exact top.safe_take.bind fun _ => Frame.safe_pushAll _
  · exact top.safe_take.bind fun _ => below.safe_take.bind fun _ =>
      Frame.safe_pushAll _
  · exact (Block.safe_take .one).bind fun _ =>
      (Block.safe_take .one).bind fun _ => Frame.safe_pushAll _

/-- Of all effects, only stores can crash. -/
theorem Effect.safe_run_or_store (e : Effect) :
    Frame.Safe e.run ∨ ∃ index size, e = .store index size := by
  rcases e with ⟨sizes, result⟩ | s | ⟨index, size⟩ | ⟨index, size⟩ | index | _
  · left
    apply (Frame.safe_popSizes sizes).bind
    intro _
    rcases result with _ | v
    · exact Frame.safe_pure ()
    · exact Frame.safe_push v
  · exact .inl s.safe_run
  · exact .inl ((Frame.safe_loadLocal index size).bind fun v =>
      Frame.safe_push v)
  · exact .inr ⟨index, size, rfl⟩
  · exact .inl ((Frame.safe_loadLocal index 1).bind fun _ => Frame.safe_pure ())
  · exact .inl ((Frame.safe_popSized 1).bind fun v => Frame.safe_push v)

/-! ## Stores -/

/-- A store crashes exactly if its value would end behind the largest 64-bit
number. -/
theorem Frame.setLocal_eq_crash_iff {index : Int64} {v : Value} {f g : Frame}
    (hlength : f.locals.length < 2 ^ 63) (hv : v.Stackable) :
    setLocal index v f = .error .crash g ↔
      2 ^ 63 ≤ index.toInt + v.size.toNat ∧ g = f := by
  have hlast : lastWritten index.toInt.toNat v.size + 1 =
      index.toInt.toNat + v.size.toNat := by
    rcases hv with hsize | hsize
    · rw [lastWritten, hsize]
      rfl
    · rw [lastWritten, hsize]
      rfl
  have hsize : 1 ≤ v.size.toNat ∧ v.size.toNat ≤ 2 := by
    rcases hv with hsize | hsize
    · rw [hsize]
      decide
    · rw [hsize]
      decide
  have hindex := index.toInt_lt
  rw [setLocal]
  rcases Checked.toInt_add_ofNat index hsize.2 with ⟨hexact, hend⟩ |
    ⟨hlarge, hend⟩
  · refine iff_of_false ?_ fun h => absurd h.1 (by omega)
    split_ifs with hrange hinside
    · rw [refuse_eq]
      simp
    · simp
    · omega
  · rw [if_neg (by omega), if_neg (by omega), EStateM.Result.error.injEq]
    constructor
    · rintro ⟨-, rfl⟩
      exact ⟨hlarge, rfl⟩
    · rintro ⟨-, rfl⟩
      exact ⟨rfl, rfl⟩

/-- A store effect crashes exactly if it finds a value of its size, which would
end behind the largest 64-bit number. -/
theorem Effect.exists_run_store_crash_iff {index : Int64} {size : UInt8}
    {f : Frame} (hlength : f.locals.length < 2 ^ 63)
    (hsize : size = 1 ∨ size = 2) :
    (∃ g, (Effect.store index size).run f = .error .crash g) ↔
      (∃ v rest, f.stack = v :: rest ∧ v.size = size) ∧
        2 ^ 63 ≤ index.toInt + size.toNat := by
  rw [Effect.run]
  constructor
  · rintro ⟨g, hcrash⟩
    rcases hpop : Frame.popSized size f with ⟨v, f'⟩ | ⟨failure, f'⟩
    · obtain ⟨rfl, rest, hstack, rfl⟩ := Frame.popSized_eq_ok_iff.mp hpop
      rw [Frame.bind_of_ok hpop] at hcrash
      obtain ⟨hlarge, -⟩ :=
        (Frame.setLocal_eq_crash_iff (by exact hlength) hsize).mp hcrash
      exact ⟨⟨v, rest, hstack, rfl⟩, hlarge⟩
    · rw [Frame.bind_of_error hpop] at hcrash
      obtain ⟨rfl, -⟩ := EStateM.Result.error.inj hcrash
      exact absurd hpop (Frame.safe_popSized size f f')
  · rintro ⟨⟨v, rest, hstack, rfl⟩, hlarge⟩
    have hpop := Frame.popSized_eq_ok_iff.mpr ⟨rfl, rest, hstack, rfl⟩
    rw [Frame.bind_of_ok hpop]
    exact ⟨_, (Frame.setLocal_eq_crash_iff (by exact hlength) hsize).mpr
      ⟨hlarge, rfl⟩⟩

/-- The size of the value that instructions of a form store in a local
variable. -/
def Form.storeSize? : Form → Option UInt8
  | .store size => some size
  | .plain (.store _ size) | .typed (.store _ size) | .jump (.store _ size) =>
    some size
  | _ => none

namespace Opcode

/-- The opcodes that store a value in a local variable, with the size of the
value. -/
def stores : List (Opcode × UInt8) := [
  (⟨54⟩, 1), -- istore
  (⟨55⟩, 2), -- lstore
  (⟨56⟩, 1), -- fstore
  (⟨57⟩, 2), -- dstore
  (⟨58⟩, 1)] -- astore

theorem form?_of_mem_stores {op : Opcode} {size : UInt8}
    (h : (op, size) ∈ stores) :
    op.form? = some (.store size) := by
  have hstores : ∀ entry ∈ stores, entry.1.form? = some (.store entry.2) := by
    decide
  exact hstores _ h

theorem mem_stores_of_form? {op : Opcode} {form : Form} {size : UInt8}
    (hform : op.form? = some form) (hsize : form.storeSize? = some size) :
    form = .store size ∧ (op, size) ∈ stores := by
  have htable : ∀ entry ∈ table.zipIdx, ∀ size ∈ entry.1.2.storeSize?,
      entry.1.2 = .store size ∧ (⟨(entry.2 : Nat)⟩, size) ∈ stores := by
    decide +kernel
  obtain ⟨mnemonic, hrow, -⟩ := exists_row_of_form? hform
  obtain ⟨i, rfl, hentry⟩ := exists_entry_of_row? hrow
  exact htable _ hentry size hsize

end Opcode

namespace Transfer

variable {insn : Instruction} {index : Int64} {size : UInt8}

/-- Only the store opcodes store a value in a local variable. -/
theorem effect_eq_store_iff :
    effect insn = .ok (.store index size) ↔
      ∃ op, insn = .var op index ∧ (op, size) ∈ Opcode.stores := by
  constructor
  · intro h
    unfold effect at h
    split at h
    · split at h <;> cases h
      rename_i hform
      cases (Opcode.mem_stores_of_form? hform rfl).1
    · split at h <;> cases h
    · rename_i op index'
      rcases hform : op.form? with _ | form
      · rw [hform] at h
        cases h
      · rw [hform] at h
        cases form <;> cases h
        exact ⟨op, rfl, (Opcode.mem_stores_of_form? hform rfl).2⟩
    · cases h
    · split at h <;> cases h
      rename_i hform
      cases (Opcode.mem_stores_of_form? hform rfl).1
    · split at h
      · cases h
      · split at h
        · rename_i access _
          cases access <;> cases h
        · cases h
    · split at h
      · cases h
      · split_ifs at h
        split at h <;> cases h
    · split at h <;> cases h
    · split at h <;> cases h
      rename_i hform
      cases (Opcode.mem_stores_of_form? hform rfl).1
    · cases h
    · cases h
    · cases h
    · split at h
      · cases h
      · split_ifs at h
        cases h
  · rintro ⟨op, rfl, hop⟩
    rw [effect, Opcode.form?_of_mem_stores hop]

/-- An instruction is a store whose value, on top of the stack, would end behind
the largest 64-bit number. -/
structure Overflows (f : Frame) (insn : Instruction) (op : Opcode)
    (index : Int64) (size : UInt8) : Prop where
  insn_eq : insn = .var op index
  store : (op, size) ∈ Opcode.stores
  top : ∃ v rest, f.stack = v :: rest ∧ v.size = size
  large : 9223372036854775807 < index.toInt + size.toNat

theorem size_of_mem_stores {op : Opcode} (h : (op, size) ∈ Opcode.stores) :
    size = 1 ∨ size = 2 := by
  have hstores : ∀ entry ∈ Opcode.stores, entry.2 = 1 ∨ entry.2 = 2 := by decide
  exact hstores _ h

theorem step_eq_crash_iff_run {f : Frame} :
    step f insn = .error .crash ↔
      ∃ e, effect insn = .ok e ∧ ∃ g, e.run f = .error .crash g := by
  rw [step]
  rcases effect insn with e | e
  · simp
  · dsimp only
    rcases hrun : e.run f with ⟨_, after⟩ | ⟨_ | _, g⟩ <;>
      simp [Failure.map, hrun]

/-- Carrying out an instruction crashes exactly if it is such a store. -/
theorem step_eq_crash_iff {f : Frame} (hlength : f.locals.length < 2 ^ 63) :
    step f insn = .error .crash ↔
      ∃ op index size, Overflows f insn op index size := by
  rw [step_eq_crash_iff_run]
  constructor
  · rintro ⟨e, heffect, g, hrun⟩
    rcases e.safe_run_or_store with hsafe | ⟨index, size, rfl⟩
    · exact absurd hrun (hsafe f g)
    · obtain ⟨op, rfl, hop⟩ := effect_eq_store_iff.mp heffect
      obtain ⟨htop, hlarge⟩ :=
        (Effect.exists_run_store_crash_iff hlength (size_of_mem_stores hop)).mp
          ⟨g, hrun⟩
      exact ⟨op, index, size, rfl, hop, htop, by omega⟩
  · rintro ⟨op, index, size, rfl, hop, htop, hlarge⟩
    refine ⟨_, effect_eq_store_iff.mpr ⟨op, rfl, hop⟩, ?_⟩
    exact (Effect.exists_run_store_crash_iff hlength
      (size_of_mem_stores hop)).mpr ⟨htop, by omega⟩

end Transfer

/-! ## Visits and runs -/

namespace Analysis

variable {assumed : Nullability} {m : Method} {s s' : State} {pos visits : Nat}
  {before entry : Frame} {insn : Instruction} {failure : Failure Malformed}

theorem flowOut_ne_crash (after : Frame) (s : State) (targets : List Nat) :
    flowOut after s targets ≠ .error .crash := by
  induction targets generalizing s with
  | nil => simp [flowOut]
  | cons target targets ih =>
      rw [flowOut]
      split
      · simp
      · exact ih _

theorem mapError_eq_crash_iff {ε δ α : Type} {x : Except (Failure ε) α}
    {f : ε → δ} :
    x.mapError (Failure.map f) = .error .crash ↔ x = .error .crash := by
  rcases x with (e | _) | a <;> simp [Except.mapError, Failure.map]

theorem propagate_eq_crash_iff :
    propagate m s pos insn before = .error .crash ↔
      Transfer.step before insn = .error .crash := by
  rw [propagate]
  rcases Transfer.step before insn with failure | after
  · rcases failure with e | _ <;> simp [Failure.map]
  · refine iff_of_false ?_ (by simp)
    dsimp only
    split
    · simp
    · split
      · rename_i hout
        rintro ⟨⟩
        exact flowOut_ne_crash _ _ _ hout
      · exact flowToHandlers_ne_crash _ _ _ _

/-- A visit crashes exactly if its instruction does. -/
theorem visit_eq_crash_iff (hinsn : m.instructions[pos]? = some insn)
    (hbefore : s.frame? pos = some before) :
    visit m s pos = .error .crash ↔
      Transfer.step before insn = .error .crash := by
  rw [visit_of_frame hinsn hbefore, mapError_eq_crash_iff,
    propagate_eq_crash_iff]

/-- A run that fails comes to a visit that fails. -/
theorem exists_failing_visit (h : run m visits s = .error failure) :
    ∃ done s' pos rest, run m done s = .ok s' ∧ s'.pending = pos :: rest ∧
      visit m s' pos = .error failure := by
  induction visits generalizing s with
  | zero => cases h
  | succ visits ih =>
      rcases hpending : s.pending with _ | ⟨pos, rest⟩
      · rw [run_of_pending_eq_nil m _ hpending] at h
        cases h
      · rw [run_of_pending m visits hpending] at h
        rcases hvisit : visit m s pos with failure' | s₁
        · rw [hvisit] at h
          cases h
          exact ⟨0, s, pos, rest, rfl, hpending, hvisit⟩
        · rw [hvisit] at h
          obtain ⟨done, s', pos', rest', hrun, hpending', hfails⟩ := ih h
          refine ⟨done + 1, s', pos', rest', ?_, hpending', hfails⟩
          rw [run_of_pending m done hpending, hvisit]
          exact hrun

/-- The visits of a run can be split where one likes. -/
theorem run_add (h : run m visits s = .ok s') (more : Nat) :
    run m (visits + more) s = run m more s' := by
  induction visits generalizing s with
  | zero =>
      cases h
      rw [Nat.zero_add]
  | succ visits ih =>
      rcases hpending : s.pending with _ | ⟨pos, rest⟩
      · rw [run_of_pending_eq_nil m _ hpending] at h ⊢
        cases h
        rw [run_of_pending_eq_nil m _ hpending]
      · rw [run_of_pending m visits hpending] at h
        rw [Nat.add_right_comm, run_of_pending m _ hpending]
        rcases hvisit : visit m s pos with failure | s₁
        · rw [hvisit] at h
          cases h
        · rw [hvisit] at h
          exact ih h

/-- The analysis comes to a visit of a store that overflows: some visits lead to
a state in which its position is the next one. -/
inductive ReachesOverflow (assumed : Nullability) (m : Method) : Prop
  | visit {entry before : Frame} {visits pos : Nat} {s : State}
      {rest : List Nat}
      {insn : Instruction} {op : Opcode} {index : Int64} {size : UInt8}
      (henters : Enters assumed m entry)
      (hrun : run m visits (start m entry) = .ok s)
      (hpending : s.pending = pos :: rest)
      (hinsn : m.instructions[pos]? = some insn)
      (hbefore : s.frame? pos = some before)
      (hoverflows : Transfer.Overflows before insn op index size) :
      ReachesOverflow assumed m

theorem fitting_of_run (henters : Enters assumed m entry)
    (h : run m visits (start m entry) = .ok s) : s.Fitting m :=
  ((henters.invariant_start trivial).of_run (stable_true m) henters.target_lt
    h).holding

/-- The entry frame is found, or there is an error to report. -/
theorem enter_ne_crash (assumed : Nullability) (m : Method) :
    enter assumed m ≠ .error .crash := by
  rw [enter]
  rcases badHandler? m with _ | h
  · dsimp only
    rw [ne_eq, mapError_eq_crash_iff]
    rcases noEntry_or_layout assumed m with ⟨cause, hcause⟩ |
      ⟨t, entry, -, -, hentry, -⟩
    · rw [entryFrame_of_noEntry hcause]
      simp
    · rw [hentry]
      simp
  · simp

theorem reachesOverflow_of_analyze (h : analyze assumed m = .error .crash) :
    ReachesOverflow assumed m := by
  have hne : m.instructions ≠ [] := by
    rintro hnil
    rw [analyze, if_pos (by simp [hnil])] at h
    cases h
  rw [analyze_eq_bind assumed hne] at h
  rcases henter : enter assumed m with failure | entry
  · rw [henter] at h
    cases h
    exact absurd henter (enter_ne_crash assumed m)
  have henters := enters_of_enter hne henter
  rw [henter] at h
  rcases hrun : run m (visitBound m) (start m entry) with failure | s
  · change (run m (visitBound m) (start m entry)).map State.frames = _ at h
    rw [hrun] at h
    cases h
    obtain ⟨visits, s, pos, rest, hs, hpending, hvisit⟩ :=
      exists_failing_visit hrun
    have hfitting := fitting_of_run henters hs
    rcases visited_or_skipped m s pos with ⟨insn, before, hinsn, hbefore⟩ |
      hskip
    · rw [visit_eq_crash_iff hinsn hbefore,
        Transfer.step_eq_crash_iff (Checked.length_locals_lt hfitting hbefore)]
          at hvisit
      obtain ⟨op, index, size, hoverflows⟩ := hvisit
      exact .visit henters hs hpending hinsn hbefore hoverflows
    · rw [visit_of_skip hskip] at hvisit
      cases hvisit
  · change (run m (visitBound m) (start m entry)).map State.frames = _ at h
    rw [hrun] at h
    cases h

theorem analyze_of_reachesOverflow (h : ReachesOverflow assumed m) :
    analyze assumed m = .error .crash := by
  obtain @⟨entry, before, visits, pos, s, rest, insn, op, index, size, henters,
    hs, hpending, hinsn, hbefore, hoverflows⟩ := h
  have hvisit : visit m s pos = .error .crash := by
    rw [visit_eq_crash_iff hinsn hbefore, Transfer.step_eq_crash_iff
      (Checked.length_locals_lt (fitting_of_run henters hs) hbefore)]
    exact ⟨op, index, size, hoverflows⟩
  have hcrash : run m (visits + (visitBound m + 1)) (start m entry) =
      .error .crash := by
    rw [run_add hs, run_of_pending m (visitBound m) hpending, hvisit]
    rfl
  -- A run of at least as many visits as the bound ends like one of exactly as
  -- many.
  obtain ⟨result, -, hends⟩ := exists_ends_run henters
  have hbound : run m (visitBound m) (start m entry) = .error .crash := by
    rw [hends _ (Nat.le_refl _),
      ← hends (visits + (visitBound m + 1)) (by omega), hcrash]
  rw [analyze_eq_bind assumed henters.nonempty,
    enter_eq_ok_iff.mpr ⟨henters.handlers, henters.entry_eq⟩]
  change (run m (visitBound m) (start m entry)).map State.frames = _
  rw [hbound]
  rfl

theorem size_frames_of_analyze {frames : Array (Option Frame)}
    (h : analyze assumed m = .ok frames) :
    frames.size = m.instructions.length := by
  by_cases hne : m.instructions = []
  · rw [analyze, if_pos (by simp [hne])] at h
    cases h
    rw [hne]
    rfl
  · obtain ⟨entry, -, hfixpoint, -⟩ := fixpoint_of_analyze hne h
    exact hfixpoint.size_eq

/-- The analysis reaches outside its tables exactly if it comes to a store whose
value would end behind the largest 64-bit number: the store of one slot at the
largest number, or of two slots at the largest number or the one before.  All
other table accesses are inside, so that the analysis with each access made
explicit is the analysis, and it ends with a frame for each instruction or with
a report. -/
theorem analyze_crashes_iff_reachesOverflow (assumed : Nullability)
    (m : Method) :
    Checked.analyze assumed m = analyze assumed m ∧
    (analyze assumed m = .error .crash ↔ ReachesOverflow assumed m) ∧
    (¬ReachesOverflow assumed m →
      (∃ frames, analyze assumed m = .ok frames ∧
        frames.size = m.instructions.length) ∨
        ∃ e : Malformed, analyze assumed m = .error (.error e)) ∧
    ∀ op size, (op, size) ∈ Opcode.stores → ∀ index : Int64,
      9223372036854775807 < index.toInt + size.toNat ↔
        size = 1 ∧ index.toInt = 9223372036854775807 ∨
          size = 2 ∧ 9223372036854775806 ≤ index.toInt := by
  have hcrash : analyze assumed m = .error .crash ↔ ReachesOverflow assumed m :=
    ⟨reachesOverflow_of_analyze, analyze_of_reachesOverflow⟩
  refine ⟨Checked.analyze_eq assumed m, hcrash, ?_, ?_⟩
  · intro hsafe
    rcases h : analyze assumed m with (e | _) | frames
    · exact .inr ⟨e, rfl⟩
    · exact absurd (hcrash.mp h) hsafe
    · exact .inl ⟨frames, rfl, size_frames_of_analyze h⟩
  · intro op size hop index
    have hindex := index.toInt_lt
    rcases Transfer.size_of_mem_stores hop with rfl | rfl
    · rw [show ((1 : UInt8).toNat : Int) = 1 from rfl]
      constructor
      · intro hlarge
        exact .inl ⟨rfl, by omega⟩
      · rintro (⟨-, hlast⟩ | ⟨hsize, -⟩)
        · omega
        · exact absurd hsize (by decide)
    · rw [show ((2 : UInt8).toNat : Int) = 2 from rfl]
      constructor
      · intro hlarge
        exact .inr ⟨rfl, by omega⟩
      · rintro (⟨hsize, -⟩ | ⟨-, hlast⟩)
        · exact absurd hsize (by decide)
        · omega

/-- A method that stores a value of two slots at an index. -/
def storeWideAt (index : Int64) : Method where
  owner := text "Node"
  name := text "store"
  desc := text "()V"
  isStatic := true
  maxStack := 2
  maxLocals := 2
  instructions := [
    .plain ⟨9⟩, -- lconst_0
    .var ⟨55⟩ index, -- lstore
    .plain ⟨177⟩] -- return
  handlers := []
  params := []

theorem storeWideAt_crashes :
    ReachesOverflow .unknown (storeWideAt 9223372036854775806) ∧
      ¬ReachesOverflow .unknown (storeWideAt 9223372036854775805) ∧
      Checked.analyze .unknown (storeWideAt 9223372036854775806) =
        .error .crash := by
  obtain ⟨hchecked, hlast, -⟩ :=
    analyze_crashes_iff_reachesOverflow .unknown
      (storeWideAt 9223372036854775806)
  obtain ⟨-, hbefore, -⟩ :=
    analyze_crashes_iff_reachesOverflow .unknown
      (storeWideAt 9223372036854775805)
  have hcrash : analyze .unknown (storeWideAt 9223372036854775806) =
      .error .crash := by
    decide +kernel
  have hsafe : analyze .unknown (storeWideAt 9223372036854775805) ≠
      .error .crash := by
    decide +kernel
  exact ⟨hlast.mp hcrash, fun h => hsafe (hbefore.mpr h), hchecked.trans hcrash⟩

end Analysis

end Nullness
