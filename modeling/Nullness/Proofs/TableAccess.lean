import Nullness.Proofs.Acceptance
import Nullness.Proofs.EntryLayout

/-!
# Table accesses

The analysis works on tables: the instructions and the frames of a method, and
the local variables and stack entries of a frame.  Its definition speaks of
their entries as options and lists, and passes silently over an entry that is
not there.

Here the analysis is written once more, with every table access at an index made
explicit.  An index has to be turned into a position of the table first
(`reach`), which is a crash if the table has none there; so is a frame that is
used before there is one.  Operands are 64-bit numbers and are computed with as
such.  The stack is taken apart at its top and needs no index, except where two
stacks are compared.

Both analyses are the same (`Checked.analyze_eq`).  What carries this is an
invariant of the states of the analysis: there is a place for each instruction,
and a pending position has a frame.
-/

namespace Nullness

/-- Goes to an index of a table.  Outside the table this is a crash. -/
def reach {ε : Type} (size : Nat) (index : Int) :
    Except (Failure ε) (Fin size) :=
  if h : 0 ≤ index ∧ index < size then .ok ⟨index.toNat, by omega⟩
  else .error .crash

section Reach

variable {ε : Type} {size pos : Nat} {index : Int}

theorem reach_of_lt (hindex : index = pos) (hpos : pos < size) :
    reach size index = (.ok ⟨pos, hpos⟩ : Except (Failure ε) (Fin size)) := by
  subst hindex
  rw [reach, dif_pos (by omega)]
  rfl

theorem reach_of_not (h : ¬(0 ≤ index ∧ index < size)) :
    reach size index = (.error .crash : Except (Failure ε) (Fin size)) :=
  dif_neg h

end Reach

namespace Checked

/-! ## Local variables -/

/-- Makes the local variable before an index unusable if it holds a value of two
slots. -/
def splitBelow (locals : List Value) (index : Int64) :
    Except (Failure Frame.Error) (List Value) :=
  if 0 < index.toInt then do
    let below ← reach locals.length (index - 1).toInt
    .ok (if (locals.get below).size = 2 then locals.set below .conflict
      else locals)
  else .ok locals

/-- Marks the local variable after an index as the second slot of a value. -/
def claimAbove (locals : List Value) (index : Int64) (size : UInt8) :
    Except (Failure Frame.Error) (List Value) :=
  if size = 2 then do
    let above ← reach locals.length (index + 1).toInt
    .ok (locals.set above .conflict)
  else .ok locals

/-- Stores a value at an index of the local variables. -/
def storeAt (locals : List Value) (index : Int64) (v : Value) :
    Except (Failure Frame.Error) (List Value) := do
  let locals ← splitBelow locals index
  let pos ← reach locals.length index.toInt
  claimAbove (locals.set pos v) index v.size

/-- Stores a value in a local variable. -/
def setLocal (index : Int64) (v : Value) : Frame.Action Unit := fun f =>
  if index.toInt < 0
      ∨ (f.locals.length : Int) < (index + Int64.ofNat v.size.toNat).toInt then
    Frame.refuse (.storeRange index v.size f.locals.length) f
  else match storeAt f.locals index v with
    | .ok locals => .ok () { f with locals := locals }
    | .error failure => .error failure f

/-- The value in a local variable, which must be usable and of the given
size. -/
def loadLocal (index : Int64) (size : UInt8) : Frame.Action Value := fun f =>
  if index.toInt < 0 ∨ (f.locals.length : Int) ≤ index.toInt then
    Frame.refuse (.readRange index f.locals.length) f
  else match reach f.locals.length index.toInt with
    | .error failure => .error failure f
    | .ok pos =>
      let v := f.locals.get pos
      if v.isEmpty || v.isConflict then Frame.refuse (.unusableLocal index) f
      else if v.size ≠ size then Frame.refuse (.localSize index v.size size) f
      else .ok v f

section Locals

variable {locals : List Value} {index : Int64} {v : Value} {f : Frame}

theorem toInt_sub_one (h : 0 < index.toInt) :
    (index - 1).toInt = index.toInt - 1 := by
  have hlt := index.toInt_lt
  rw [Int64.toInt_sub, Int64.toInt_one, Int.bmod_eq_of_le (by omega) (by omega)]

/-- A sum of 64-bit numbers is exact, or too large for them and negative. -/
theorem toInt_add_ofNat (index : Int64) {k : Nat} (hk : k ≤ 2) :
    (index.toInt + k < 2 ^ 63 ∧
      (index + Int64.ofNat k).toInt = index.toInt + k) ∨
      2 ^ 63 ≤ index.toInt + k ∧ (index + Int64.ofNat k).toInt < 0 := by
  have hle := index.le_toInt
  have hlt := index.toInt_lt
  rw [Int64.toInt_add, Int64.toInt_ofNat_of_lt (by omega)]
  by_cases hexact : index.toInt + k < 2 ^ 63
  · exact .inl ⟨hexact, Int.bmod_eq_of_le (by omega) (by omega)⟩
  · refine .inr ⟨by omega, ?_⟩
    rw [Int.bmod]
    omega

theorem toInt_add_one (index : Int64) :
    (index.toInt + 1 < 2 ^ 63 ∧ (index + 1).toInt = index.toInt + 1) ∨
      2 ^ 63 ≤ index.toInt + 1 ∧ (index + 1).toInt < 0 :=
  toInt_add_ofNat index (Nat.le_succ 1)

theorem splitBelow_of_le (locals : List Value) (hindex : 0 ≤ index.toInt)
    (h : index.toInt ≤ locals.length) :
    ∃ split, splitBelow locals index = .ok split ∧
      split.length = locals.length ∧
      ∀ v, Frame.storeAt locals index.toInt.toNat v =
        if v.size = 2 then
          (split.set index.toInt.toNat v).set (index.toInt.toNat + 1) .conflict
        else split.set index.toInt.toNat v := by
  refine ⟨if 0 < index.toInt.toNat ∧
        (locals[index.toInt.toNat - 1]?).any (·.size = 2)
      then locals.set (index.toInt.toNat - 1) .conflict else locals,
    ?_, ?_, fun v => rfl⟩
  · rw [splitBelow]
    by_cases hpos : 0 < index.toInt
    · have hlt : index.toInt.toNat - 1 < locals.length := by omega
      have hbelow : (index - 1).toInt = (index.toInt.toNat - 1 : Nat) := by
        rw [toInt_sub_one hpos]
        omega
      rw [if_pos hpos, reach_of_lt hbelow hlt, List.getElem?_eq_getElem hlt,
        Option.any_some]
      simp only [decide_eq_true_eq, show 0 < index.toInt.toNat by omega,
        true_and]
      rfl
    · rw [if_neg hpos, if_neg (by omega)]
  · split_ifs
    · exact List.length_set
    · rfl

/-- The value is stored where the store ends inside the local variables. -/
theorem storeAt_of_lt (hlength : locals.length < 2 ^ 63)
    (hindex : 0 ≤ index.toInt)
    (h : Frame.lastWritten index.toInt.toNat v.size < locals.length) :
    storeAt locals index v =
      .ok (Frame.storeAt locals index.toInt.toNat v) := by
  have hlt := Frame.lt_of_lastWritten_lt h
  obtain ⟨split, hsplit, hsame, hstore⟩ :=
    splitBelow_of_le locals hindex (by omega)
  rw [storeAt, hsplit, hstore]
  change (reach split.length index.toInt >>= _) = _
  rw [reach_of_lt (Int.toNat_of_nonneg hindex).symm (by omega)]
  change claimAbove (split.set index.toInt.toNat v) index v.size = _
  rw [claimAbove]
  by_cases hwide : v.size = 2
  · rw [Frame.lastWritten, if_pos hwide] at h
    have habove : (index + 1).toInt = (index.toInt.toNat + 1 : Nat) := by
      rcases toInt_add_one index with ⟨-, hnext⟩ | ⟨hlast, -⟩
      · omega
      · omega
    rw [if_pos hwide, if_pos hwide,
      reach_of_lt habove (by rw [List.length_set]; omega)]
    rfl
  · rw [if_neg hwide, if_neg hwide]

/-- A store that reaches outside the local variables is a crash. -/
theorem storeAt_of_le (hindex : 0 ≤ index.toInt)
    (h : locals.length ≤ Frame.lastWritten index.toInt.toNat v.size) :
    storeAt locals index v = .error .crash := by
  rw [storeAt]
  by_cases hbelow : index.toInt ≤ locals.length
  · obtain ⟨split, hsplit, hsame, -⟩ := splitBelow_of_le locals hindex hbelow
    rw [hsplit]
    change (reach split.length index.toInt >>= _) = _
    by_cases hpos : index.toInt < locals.length
    · have hwide : v.size = 2 := by
        by_contra hnarrow
        rw [Frame.lastWritten, if_neg hnarrow] at h
        omega
      rw [Frame.lastWritten, if_pos hwide] at h
      rw [reach_of_lt (Int.toNat_of_nonneg hindex).symm (by omega)]
      change claimAbove (split.set index.toInt.toNat v) index v.size = _
      have habove : ¬(0 ≤ (index + 1).toInt ∧
          (index + 1).toInt < (split.set index.toInt.toNat v).length) := by
        rw [List.length_set]
        rcases toInt_add_one index with ⟨-, hnext⟩ | ⟨-, hnegative⟩
        · omega
        · omega
      rw [claimAbove, if_pos hwide, reach_of_not habove]
      rfl
    · rw [reach_of_not (by omega)]
      rfl
  · have hpos : 0 < index.toInt := by omega
    have hsplit : splitBelow locals index = .error .crash := by
      rw [splitBelow, if_pos hpos,
        reach_of_not (by rw [toInt_sub_one hpos]; omega)]
      rfl
    rw [hsplit]
    rfl

theorem setLocal_eq (hlength : f.locals.length < 2 ^ 63) :
    setLocal index v f = Frame.setLocal index v f := by
  rw [setLocal, Frame.setLocal]
  by_cases hrange : index.toInt < 0
      ∨ (f.locals.length : Int) < (index + Int64.ofNat v.size.toNat).toInt
  · rw [if_pos hrange, if_pos hrange]
  · rw [if_neg hrange, if_neg hrange]
    by_cases hlast : Frame.lastWritten index.toInt.toNat v.size <
      f.locals.length
    · rw [if_pos hlast, storeAt_of_lt hlength (by omega) hlast]
    · rw [if_neg hlast, storeAt_of_le (by omega) (by omega)]

theorem loadLocal_eq (index : Int64) (size : UInt8) :
    loadLocal index size = Frame.loadLocal index size := by
  funext f
  rw [loadLocal, Frame.loadLocal, Frame.local?]
  by_cases hnegative : index.toInt < 0
  · rw [if_pos (.inl hnegative), if_pos hnegative]
  · rw [if_neg hnegative]
    by_cases hlt : index.toInt.toNat < f.locals.length
    · rw [if_neg (by omega),
        reach_of_lt (Int.toNat_of_nonneg (by omega)).symm hlt,
        List.getElem?_eq_getElem hlt]
      rfl
    · rw [if_pos (by omega), List.getElem?_eq_none (by omega)]

end Locals

/-! ## Effects -/

/-- Carries out an effect. -/
def runEffect : Effect → Frame.Action Unit
  | .load index size => do
    let v ← loadLocal index size
    Frame.push v
  | .store index size => do
    let v ← Frame.popSized size
    setLocal index v
  | .read index => do
    let _ ← loadLocal index 1
  | e => e.run

/-- The frame after an instruction. -/
def step (f : Frame) (insn : Instruction) :
    Except (Failure Transfer.Error) Frame :=
  match Transfer.effect insn with
  | .error e => .error (.error e)
  | .ok e =>
    match runEffect e f with
    | .ok _ after => .ok after
    | .error failure _ => .error (failure.map .frame)

theorem runEffect_eq {f : Frame} (hlength : f.locals.length < 2 ^ 63)
    (e : Effect) :
    runEffect e f = e.run f := by
  rcases e with _ | _ | ⟨index, size⟩ | ⟨index, size⟩ | index | _
  · rfl
  · rfl
  · rw [runEffect, Effect.run, loadLocal_eq]
  · rw [runEffect, Effect.run]
    rcases hpop : Frame.popSized size f with ⟨v, g⟩ | ⟨failure, g⟩
    · obtain ⟨-, rest, -, rfl⟩ := Frame.popSized_eq_ok_iff.mp hpop
      rw [Frame.bind_of_ok hpop, Frame.bind_of_ok hpop]
      exact setLocal_eq hlength
    · rw [Frame.bind_of_error hpop, Frame.bind_of_error hpop]
  · rw [runEffect, Effect.run, loadLocal_eq]
  · rfl

theorem step_eq {f : Frame} (hlength : f.locals.length < 2 ^ 63)
    (insn : Instruction) :
    step f insn = Transfer.step f insn := by
  rw [step, Transfer.step]
  rcases Transfer.effect insn with e | e
  · rfl
  · have hrun := runEffect_eq hlength e
    rcases hresult : e.run f with ⟨_, after⟩ | ⟨failure, _⟩ <;>
      simp only [hrun, hresult]

/-! ## Merges -/

/-- The entries of a table at a number of indices, the first of which is
`index`. -/
def entriesFrom (table : List Value) (index : Nat) :
    (count : Nat) → Except (Failure Frame.Error) (List Value)
  | 0 => .ok []
  | count + 1 => do
    let pos ← reach table.length index
    let rest ← entriesFrom table (index + 1) count
    .ok (table.get pos :: rest)

/-- Joins the second frame into the first.  For each entry of the first, the
entry of the second at the same index is looked up. -/
def merge (f g : Frame) : Except (Failure Frame.Error) (Frame × Bool) :=
  if f.locals.length ≠ g.locals.length then
    .error (.error (.mergeLocals f.locals.length g.locals.length))
  else if f.stack.length ≠ g.stack.length then
    .error (.error (.mergeHeight f.stack.length g.stack.length))
  else do
    let stack ← entriesFrom g.stack 0 f.stack.length
    match Frame.sizeClash? 0 f.stack.reverse stack.reverse with
    | some (entry, left, right) => .error (.error (.mergeSize entry left right))
    | none =>
      let locals ← entriesFrom g.locals 0 f.locals.length
      .ok ({ f with
          locals := List.zipWith Value.merge f.locals locals
          stack := List.zipWith Value.merge f.stack stack },
        Frame.slotsChange f.stack stack || Frame.slotsChange f.locals locals)

/-- The frame that flows from a protected instruction into its handler. -/
def handlerFrame (before after : Frame) :
    Except (Failure Analysis.Cause) Frame :=
  match merge before.clearStack after.clearStack with
  | .error failure => .error (failure.map .handlerLocals)
  | .ok (merged, _) =>
    match Frame.push .nonNull merged with
    | .ok _ f => .ok f
    | .error failure _ => .error (failure.map .caughtException)

theorem entriesFrom_eq {table : List Value} {index count : Nat}
    (h : index + count = table.length) :
    entriesFrom table index count = .ok (table.drop index) := by
  induction count generalizing index with
  | zero => rw [entriesFrom, List.drop_of_length_le (by omega)]
  | succ count ih =>
      have hindex : index < table.length := by omega
      rw [entriesFrom, reach_of_lt rfl hindex, List.drop_eq_getElem_cons hindex]
      change (entriesFrom table (index + 1) count >>= _) = _
      rw [ih (by omega)]
      rfl

theorem merge_eq (f g : Frame) : merge f g = (f.merge g).mapError .error := by
  rw [merge, Frame.merge]
  by_cases hlocals : f.locals.length = g.locals.length
  · by_cases hstack : f.stack.length = g.stack.length
    · rw [if_neg (by simpa using hlocals), if_neg (by simpa using hstack),
        if_neg (by simpa using hlocals), if_neg (by simpa using hstack),
        entriesFrom_eq (by omega), entriesFrom_eq (by omega), List.drop_zero,
        List.drop_zero]
      dsimp only [bind, Except.bind]
      rcases Frame.sizeClash? 0 f.stack.reverse g.stack.reverse with _ | clash
      · rfl
      · rfl
    · rw [if_neg (by simpa using hlocals), if_pos hstack,
        if_neg (by simpa using hlocals), if_pos hstack]
      rfl
  · rw [if_pos hlocals, if_pos hlocals]
    rfl

theorem handlerFrame_eq (before after : Frame) :
    handlerFrame before after = Analysis.handlerFrame before after := by
  rw [handlerFrame, Analysis.handlerFrame, merge_eq]
  rcases before.clearStack.merge after.clearStack with e | ⟨merged, changed⟩
  · rfl
  · rfl

/-! ## The entry frame -/

section Entry

open Analysis (Cause parameterValue receiverSlots)

/-- Stores a value in a local variable of a frame. -/
def storeLocal (f : Frame) (index : Nat) (v : Value) :
    Except (Failure Frame.Error) Frame :=
  match setLocal (Int64.ofNat index) v f with
  | .ok _ f' => .ok f'
  | .error failure _ => .error failure

/-- Stores the parameters of the given types. -/
def storeParameters (m : Method) (assumed : Nullability) (param index : Nat)
    (f : Frame) :
    List Descriptor.FieldType → Except (Failure Cause) Frame
  | [] => .ok f
  | t :: types =>
    match storeLocal f index (parameterValue assumed (m.paramAt param) t) with
    | .error failure => .error (failure.map (.parameter param))
    | .ok f' =>
      storeParameters m assumed (param + 1) (index + t.size.toNat) f' types

/-- The frame before the first instruction of a method. -/
def entryFrame (assumed : Nullability) (m : Method) :
    Except (Failure Cause) Frame :=
  if m.maxStack.toInt < 0 ∨ m.maxLocals.toInt < 0 then
    .error (.error (.bounds m.maxStack m.maxLocals))
  else match Descriptor.parseMethodType m.desc with
    | .error e => .error (.error (.descriptor e))
    | .ok t =>
      let slots := t.argSlots + receiverSlots m
      if m.maxLocals.toInt < slots then
        .error (.error (.parameterSlots slots m.maxLocals))
      else
        let f := Frame.new m.maxLocals.toInt.toNat m.maxStack.toInt.toNat
        if m.isStatic then storeParameters m assumed 0 0 f t.args
        else match storeLocal f 0 .nonNull with
          | .error failure => .error (failure.map .receiver)
          | .ok f' => storeParameters m assumed 0 1 f' t.args

variable {m : Method} {assumed : Nullability}

theorem storeLocal_eq {f : Frame} (hlength : f.locals.length < 2 ^ 63)
    (index : Nat) (v : Value) :
    storeLocal f index v = Analysis.storeLocal f index v := by
  rcases hresult : Frame.setLocal (Int64.ofNat index) v f with ⟨_, f'⟩ |
    ⟨failure, _⟩ <;>
      simp only [storeLocal, Analysis.storeLocal, setLocal_eq hlength, hresult]

theorem storeParameters_eq {f : Frame} (hlength : f.locals.length < 2 ^ 63)
    (param index : Nat) (types : List Descriptor.FieldType) :
    storeParameters m assumed param index f types =
      Analysis.storeParameters m assumed param index f types := by
  induction types generalizing f param index with
  | nil => rfl
  | cons t types ih =>
      rw [storeParameters, Analysis.storeParameters, storeLocal_eq hlength]
      rcases hstore : Analysis.storeLocal f index
        (parameterValue assumed (m.paramAt param) t) with failure | f'
      · rfl
      · refine ih ?_ _ _
        rw [Analysis.length_locals_of_storeLocal hstore]
        exact hlength

theorem entryFrame_eq (assumed : Nullability) (m : Method) :
    entryFrame assumed m = Analysis.entryFrame assumed m := by
  have hlength :
      (Frame.new m.maxLocals.toInt.toNat m.maxStack.toInt.toNat).locals.length <
      2 ^ 63 := by
    have hlt := m.maxLocals.toInt_lt
    rw [Frame.new, List.length_replicate]
    omega
  rw [entryFrame, Analysis.entryFrame]
  by_cases hbounds : m.maxStack.toInt < 0 ∨ m.maxLocals.toInt < 0
  · rw [if_pos hbounds, if_pos hbounds]
  · rw [if_neg hbounds, if_neg hbounds]
    rcases Descriptor.parseMethodType m.desc with e | t
    · rfl
    · dsimp only
      split_ifs with hroom hstatic
      · rfl
      · exact storeParameters_eq hlength _ _ _
      · rw [storeLocal_eq hlength]
        rcases hstore : Analysis.storeLocal _ 0 .nonNull with failure | f
        · rfl
        · exact storeParameters_eq
            (by rw [Analysis.length_locals_of_storeLocal hstore]; exact hlength)
            _ _ _

end Entry

/-! ## Visits -/

section Visits

open Analysis (Cause Malformed State)

/-- The frame at a position, which must have been reached. -/
def frameAt {ε : Type} (s : State) (pos : Int) : Except (Failure ε) Frame := do
  let pos ← reach s.frames.size pos
  match getElem s.frames pos.val pos.isLt with
  | some f => .ok f
  | none => .error .crash

/-- Sets the frame at a position and makes the position pending. -/
def update (s : State) (pos : Fin s.frames.size) (f : Frame) : State where
  frames := s.frames.set pos (some f)
  pending := State.insertPosition pos s.pending

/-- Merges a frame into the one at a position. -/
def flow (s : State) (target : Int) (f : Frame) :
    Except (Failure Frame.Error) State := do
  let pos ← reach s.frames.size target
  match getElem s.frames pos.val pos.isLt with
  | none => .ok (update s pos f)
  | some g =>
    let (merged, changed) ← merge g f
    .ok (if changed then update s pos merged else s)

/-- Merges the frame after an instruction into those of its successors. -/
def flowOut (after : Frame) : State → List Nat → Except (Failure Cause) State
  | s, [] => .ok s
  | s, target :: targets =>
    match flow s target after with
    | .error failure => .error (failure.map (.mergeInto target))
    | .ok s' => flowOut after s' targets

/-- Merges into the frames of the handlers that protect the instruction at a
position. -/
def flowToHandlers (pos : Nat) (after : Frame) :
    State → List Handler → Except (Failure Cause) State
  | s, [] => .ok s
  | s, h :: handlers =>
    if h.covers pos then do
      let before ← frameAt s pos
      let f ← handlerFrame before after
      match flow s h.target.toInt f with
      | .error failure =>
        .error (failure.map (.mergeIntoHandler h.target.toInt.toNat))
      | .ok s' => flowToHandlers pos after s' handlers
    else flowToHandlers pos after s handlers

/-- Carries out the instruction at a position on a frame and passes the result
on. -/
def propagate (m : Method) (s : State) (pos : Nat) (insn : Instruction)
    (before : Frame) :
    Except (Failure Cause) State :=
  match step before insn with
  | .error failure => .error (failure.map .transfer)
  | .ok after =>
    match Flow.successors m.instructions pos insn with
    | .error e => .error (.error (.flow e))
    | .ok targets => do
      let s' ← flowOut after s targets
      flowToHandlers pos after s' m.handlers

/-- Visits a position, which is pending no longer. -/
def visit (m : Method) (s : State) (pos : Nat) :
    Except (Failure Malformed) State := do
  let index ← reach m.instructions.length pos
  let insn := m.instructions.get index
  let before ← frameAt s pos
  (propagate m (s.leave pos) pos insn before).mapError
    (Failure.map (⟨m.signature, some (pos, insn.opcode), ·⟩))

/-- Visits the lowest pending position again and again. -/
def run (m : Method) : (visits : Nat) → State → Except (Failure Malformed) State
  | 0, s => .ok s
  | visits + 1, s =>
    match s.pending with
    | [] => .ok s
    | pos :: _ => do
      let s' ← visit m s pos
      run m visits s'

/-- The state before the first visit. -/
def start (m : Method) (entry : Frame) : Except (Failure Malformed) State := do
  let frames := Array.replicate m.instructions.length none
  let first ← reach frames.size 0
  .ok ⟨frames.set first (some entry), [0]⟩

/-- The frame before every instruction of a method. -/
def analyze (assumed : Nullability) (m : Method) :
    Except (Failure Malformed) (Array (Option Frame)) :=
  if m.instructions.isEmpty then .ok #[]
  else match Analysis.badHandler? m with
    | some h => .error (.error ⟨m.signature, none, .handlerRange h⟩)
    | none =>
      match entryFrame assumed m with
      | .error failure => .error (failure.map (⟨m.signature, none, ·⟩))
      | .ok entry => do
        let s ← start m entry
        let s ← run m (Analysis.visitBound m) s
        .ok s.frames

variable {m : Method} {s s' : State} {pos : Nat} {f before after : Frame}

theorem getElem_frames (hpos : pos < s.frames.size) :
    s.frames[pos] = s.frame? pos := by
  rw [State.frame?, Array.getElem?_eq_getElem hpos]
  rfl

theorem lt_of_frame? (h : s.frame? pos = some f) : pos < s.frames.size := by
  by_contra hpos
  rw [State.frame?, Array.getElem?_eq_none (by omega)] at h
  cases h

theorem frameAt_eq {ε : Type} (h : s.frame? pos = some f) :
    frameAt s pos = (.ok f : Except (Failure ε) Frame) := by
  have hpos := lt_of_frame? h
  rw [frameAt, reach_of_lt rfl hpos]
  change (match s.frames[pos] with | some f => _ | none => _) = _
  rw [getElem_frames hpos, h]

theorem update_eq (hpos : pos < s.frames.size) (f : Frame) :
    update s ⟨pos, hpos⟩ f = s.update pos f := by
  rw [update, State.update, Array.setIfInBounds_def, dif_pos hpos]

theorem flow_eq {target : Int} (htarget : target = pos)
    (hpos : pos < s.frames.size) (f : Frame) :
    flow s target f = (s.flow pos f).mapError .error := by
  rw [flow, reach_of_lt htarget hpos, State.flow, ← getElem_frames hpos]
  change (match s.frames[pos] with | none => _ | some g => _) = _
  rcases s.frames[pos] with _ | g
  · dsimp only
    rw [update_eq]
    rfl
  · dsimp only
    rw [merge_eq]
    rcases g.merge f with e | ⟨merged, changed⟩
    · rfl
    · change Except.ok (if changed then update s ⟨pos, hpos⟩ merged else s) = _
      rw [update_eq]
      rfl

theorem size_frames_of_flow (h : s.flow pos f = .ok s') :
    s'.frames.size = s.frames.size := by
  obtain ⟨-, rfl⟩ := State.flow_eq_ok h
  split_ifs
  · rfl
  · rw [State.update, Array.size_setIfInBounds]

theorem flowOut_eq {targets : List Nat}
    (htargets : ∀ t ∈ targets, t < s.frames.size) (after : Frame) :
    flowOut after s targets = Analysis.flowOut after s targets := by
  induction targets generalizing s with
  | nil => rfl
  | cons target targets ih =>
      obtain ⟨htarget, htargets⟩ := List.forall_mem_cons.mp htargets
      rw [flowOut, Analysis.flowOut, flow_eq rfl htarget]
      rcases hflow : s.flow target after with e | s₁
      · rfl
      · exact ih fun t ht => by
          rw [size_frames_of_flow hflow]; exact htargets t ht

/-- The instruction at the position has been reached, so that its frame can be
looked up for each of the handlers. -/
theorem flowToHandlers_eq {handlers : List Handler}
    (hbefore : s.frame? pos = some before)
    (hhandlers : ∀ h ∈ handlers, h.Valid s.frames.size) (after : Frame) :
    flowToHandlers pos after s handlers =
      Analysis.flowToHandlers pos after s handlers := by
  induction handlers generalizing s before with
  | nil => rfl
  | cons handler handlers ih =>
      obtain ⟨hvalid, hrest⟩ := List.forall_mem_cons.mp hhandlers
      rw [flowToHandlers, Analysis.flowToHandlers, hbefore, Option.getD_some]
      by_cases hcovers : handler.covers pos
      · rw [if_pos hcovers, if_pos hcovers, frameAt_eq hbefore]
        change (handlerFrame before after >>= _) = _
        rw [handlerFrame_eq]
        rcases Analysis.handlerFrame before after with failure | f
        · rfl
        · obtain ⟨-, -, -, hnonneg, hlt⟩ := hvalid
          have htarget : handler.target.toInt.toNat < s.frames.size := by omega
          change (match flow s handler.target.toInt f with
            | .error _ => _
            | .ok _ => _) = _
          rw [flow_eq (Int.toNat_of_nonneg hnonneg).symm htarget]
          dsimp only
          rcases hflow : s.flow handler.target.toInt.toNat f with e | s₁
          · rfl
          · have hframe : ∃ before, s₁.frame? pos = some before := by
              rw [State.frame?_flow htarget hflow]
              split_ifs
              · exact ⟨_, rfl⟩
              · exact ⟨before, hbefore⟩
            obtain ⟨before', hbefore'⟩ := hframe
            refine ih hbefore' ?_
            rw [size_frames_of_flow hflow]
            exact hrest
      · rw [if_neg hcovers, if_neg hcovers]
        exact ih hbefore hrest

/-- A state of the analysis: its frames fit the method, and there is a frame at
every pending position. -/
structure Ready (m : Method) (s : State) : Prop where
  fitting : s.Fitting m
  framed : ∀ pos ∈ s.pending, ∃ f, s.frame? pos = some f

theorem length_locals_lt (hs : s.Fitting m) (h : s.frame? pos = some f) :
    f.locals.length < 2 ^ 63 := by
  have hlt := m.maxLocals.toInt_lt
  rw [(hs.fits h).length_locals]
  omega

theorem propagate_eq {insn : Instruction} (hs : s.Fitting m)
    (hhandlers : ∀ h ∈ m.handlers, h.Valid m.instructions.length)
    (hbefore : s.frame? pos = some before) :
    propagate m s pos insn before = Analysis.propagate m s pos insn before := by
  rw [propagate, Analysis.propagate, step_eq (length_locals_lt hs hbefore)]
  rcases hstep : Transfer.step before insn with failure | after
  · rfl
  dsimp only
  rcases hsucc : Flow.successors m.instructions pos insn with e | targets
  · rfl
  have htargets := Flow.lt_of_mem_successors hsucc
  dsimp only
  rw [flowOut_eq (by rw [hs.size_eq]; exact htargets)]
  rcases hout : Analysis.flowOut after s targets with failure | s₁
  · rfl
  have hafter := (hs.fits hbefore).step hstep
  obtain ⟨hs₁, hgrows, -⟩ :=
    Analysis.flowOut_spec (Analysis.stable_true m).join hs hafter (fun t ht =>
      ⟨htargets t ht, trivial⟩) hout
  obtain ⟨before', hbefore', -⟩ := hgrows.rises hbefore
  exact flowToHandlers_eq hbefore' (by rw [hs₁.size_eq]; exact hhandlers) after

theorem visit_eq (hs : s.Fitting m)
    (hhandlers : ∀ h ∈ m.handlers, h.Valid m.instructions.length)
    (hbefore : s.frame? pos = some before) :
    visit m s pos = Analysis.visit m s pos := by
  have hpos : pos < m.instructions.length := by
    rw [← hs.size_eq]
    exact lt_of_frame? hbefore
  rw [Analysis.visit_of_frame (List.getElem?_eq_getElem hpos) hbefore, visit,
    reach_of_lt rfl hpos]
  change (frameAt s pos >>= _) = _
  rw [frameAt_eq hbefore]
  change
    (propagate m (s.leave pos) pos m.instructions[pos] before).mapError _ = _
  rw [propagate_eq (hs.leave pos) hhandlers hbefore]
  rfl

theorem Ready.leave (hs : Ready m s) (pos : Nat) : Ready m (s.leave pos) :=
  ⟨hs.fitting.leave pos, fun p hp => hs.framed p (List.mem_of_mem_erase hp)⟩

theorem Ready.flow (hs : Ready m s) (hpos : pos < m.instructions.length)
    (hf : Frame.Fits m f) (h : s.flow pos f = .ok s') : Ready m s' := by
  refine ⟨hs.fitting.flow hpos hf h, fun p hp => ?_⟩
  rw [State.frame?_flow (by rw [hs.fitting.size_eq]; exact hpos) h]
  split_ifs with hsame
  · exact ⟨_, rfl⟩
  · apply hs.framed
    obtain ⟨-, rfl⟩ := State.flow_eq_ok h
    split_ifs at hp
    · exact hp
    · exact (State.mem_insertPosition.mp hp).resolve_left hsame

theorem Ready.merges (hs : Ready m s) (h : State.Merges m s s') :
    Ready m s' := by
  induction h with
  | refl => exact hs
  | flow htarget hf hflow _ ih => exact ih (hs.flow htarget hf hflow)

theorem run_eq (hs : Ready m s)
    (hhandlers : ∀ h ∈ m.handlers, h.Valid m.instructions.length)
    (visits : Nat) :
    run m visits s = Analysis.run m visits s := by
  induction visits generalizing s with
  | zero => rfl
  | succ visits ih =>
      rw [run]
      rcases hpending : s.pending with _ | ⟨pos, rest⟩
      · rw [Analysis.run_of_pending_eq_nil m _ hpending]
      · obtain ⟨before, hbefore⟩ :=
          hs.framed pos (by rw [hpending]; exact List.mem_cons_self)
        rw [Analysis.run_of_pending m visits hpending]
        dsimp only
        rw [visit_eq hs.fitting hhandlers hbefore]
        rcases hvisit : Analysis.visit m s pos with failure | s'
        · rfl
        · have hmerges := Analysis.merges_of_visit hs.fitting
            (Analysis.target_lt_of_badHandler?
              (Analysis.badHandler?_eq_none_iff.mpr hhandlers))
            hvisit
          exact ih ((hs.leave pos).merges hmerges)

theorem start_eq (hne : m.instructions ≠ []) (entry : Frame) :
    start m entry = .ok (Analysis.start m entry) := by
  have hfirst : 0 <
      (Array.replicate m.instructions.length (none : Option Frame)).size := by
    rw [Array.size_replicate]
    exact List.length_pos_iff.mpr hne
  rw [start, reach_of_lt (show (0 : Int) = (0 : Nat) from rfl) hfirst,
    Analysis.start, Array.setIfInBounds_def, dif_pos hfirst]
  rfl

/-- Whatever the method, the analysis with its table accesses made explicit is
the analysis. -/
theorem analyze_eq (assumed : Nullability) (m : Method) :
    analyze assumed m = Analysis.analyze assumed m := by
  by_cases hne : m.instructions = []
  · rw [analyze, Analysis.analyze, if_pos (by simp [hne]),
      if_pos (by simp [hne])]
  rw [analyze, if_neg (by simpa using hne),
    Analysis.analyze_eq_bind assumed hne, Analysis.enter, entryFrame_eq]
  rcases hhandlers : Analysis.badHandler? m with _ | h
  · dsimp only
    rcases hentry : Analysis.entryFrame assumed m with failure | entry
    · rfl
    · have henters : Analysis.Enters assumed m entry := ⟨hne, hhandlers, hentry⟩
      have hs : Ready m (Analysis.start m entry) := by
        refine ⟨(henters.invariant_start trivial).holding, ?_⟩
        intro pos hpos
        rw [Analysis.frame?_start hne, List.mem_singleton.mp hpos]
        exact ⟨entry, rfl⟩
      dsimp only
      rw [start_eq hne]
      change (run m (Analysis.visitBound m) (Analysis.start m entry) >>= _) = _
      rw [run_eq hs (Analysis.badHandler?_eq_none_iff.mp hhandlers)]
      rfl
  · rfl

end Visits

end Checked
end Nullness
