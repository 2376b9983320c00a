import Nullness.Proofs.Acceptance

/-!
# Declared bounds only gate acceptance

A method declares how many local variables it has and how many slots its stack
takes.  What is refused because of these bounds is refused; beyond that, they
play no part.  A step that succeeds on a frame succeeds on the frame with
further local variables and more room, and does not touch what has been added.
The same holds of a merge, which also reports the same change, of a visit and of
a whole run.  So with larger bounds the analysis makes the same visits.
-/

namespace Nullness

namespace Frame

variable {tail : List Value} {extra : Nat} {f g : Frame}

/-- The frame with further local variables and more room on its stack. -/
def widen (tail : List Value) (extra : Nat) (f : Frame) : Frame :=
  { f with locals := f.locals ++ tail, maxStack := f.maxStack + extra }

theorem widen_inj : f.widen tail extra = g.widen tail extra ↔ f = g := by
  cases f
  cases g
  simp [widen]

theorem new_widen (maxLocals maxStack more extra : Nat) :
    (new maxLocals maxStack).widen (List.replicate more .empty) extra =
      new (maxLocals + more) (maxStack + extra) := by
  simp [new, widen, List.replicate_append_replicate]

theorem Admits.append {length more : Nat} {index : Int64} {size : UInt8}
    (h : Admits length index size) : Admits (length + more) index size := by
  obtain ⟨hrange, hwritten⟩ := h
  exact ⟨by omega, by omega⟩

/-- A store that ends inside the local variables does not reach what follows
them. -/
theorem storeAt_append {locals : List Value} {index : Nat} {v : Value}
    (h : lastWritten index v.size < locals.length) (tail : List Value) :
    storeAt (locals ++ tail) index v = storeAt locals index v ++ tail := by
  have hindex := lt_of_lastWritten_lt h
  have hbelow : (locals ++ tail)[index - 1]? = locals[index - 1]? :=
    List.getElem?_append_left (by omega)
  have hset : ∀ l : List Value, l.length = locals.length → ∀ i w,
      i < locals.length → (l ++ tail).set i w = l.set i w ++ tail := by
    intro l hlength i w hi
    exact List.set_append_left _ _ (by omega)
  have hfirst : (if 0 < index ∧ (locals[index - 1]?).any (·.size = 2) then
        (locals ++ tail).set (index - 1) Value.conflict else locals ++ tail) =
      (if 0 < index ∧ (locals[index - 1]?).any (·.size = 2) then
        locals.set (index - 1) Value.conflict else locals) ++ tail := by
    split_ifs
    · exact hset _ rfl _ _ (by omega)
    · rfl
  rw [storeAt, storeAt, hbelow, hfirst,
    hset _ (by split_ifs <;> simp) _ _ hindex]
  by_cases hwide : v.size = 2
  · rw [lastWritten, if_pos hwide] at h
    rw [if_pos hwide, if_pos hwide, hset _ (by split_ifs <;> simp) _ _ h]
  · rw [if_neg hwide, if_neg hwide]

theorem join_widen (h : f.locals.length = g.locals.length) :
    (f.widen tail extra).join (g.widen tail extra) =
      (f.join g).widen tail extra := by
  simp [join, widen, List.zipWith_append h, List.zipWith_self]

/-- A merge does the same to wider frames, and reports the same change. -/
theorem merge_widen {joined : Frame} {changed : Bool}
    (h : f.merge g = .ok (joined, changed)) :
    (f.widen tail extra).merge (g.widen tail extra) =
      .ok (joined.widen tail extra, changed) := by
  obtain ⟨hlength, hsizes, rfl, rfl⟩ := merge_eq_ok_iff.mp h
  refine merge_eq_ok_iff.mpr ⟨?_, hsizes, (join_widen hlength).symm, ?_⟩
  · simp [widen, hlength]
  · simp only [ne_eq, widen_inj]

end Frame

namespace Diagnosis

theorem frameAt?_map (change : Frame → Frame) (frames : Array (Option Frame))
    (pos : Nat) :
    frameAt? (frames.map (Option.map change)) pos =
      (frameAt? frames pos).map change := by
  rw [frameAt?, frameAt?, Array.getElem?_map]
  cases frames[pos]? <;> rfl

theorem diagnose_widen (frames : Array (Option Frame))
    (insns : List Instruction) (tail : List Value) (extra : Nat) :
    diagnose (frames.map (Option.map (Frame.widen tail extra))) insns =
      diagnose frames insns := by
  have hflagged : ∀ (frame : Option Frame) (insn : Instruction),
      isFlagged (frame.map (Frame.widen tail extra)) insn =
        isFlagged frame insn := by
    intro frame insn
    cases frame <;> rfl
  simp only [diagnose, frameAt?_map, hflagged]

end Diagnosis

/-! ## Steps -/

theorem Effect.Exchange.append {read : UInt8 → Value → Option Value}
    {e : Effect} {locals taken given locals' : List Value}
    (hx : e.Exchange read locals taken given locals') (tail : List Value) :
    e.Exchange read (locals ++ tail) taken given (locals' ++ tail) := by
  have hget : ∀ {i : Nat} {v : Value}, locals[i]? = some v →
      (locals ++ tail)[i]? = some v := by
    intro i v hv
    obtain ⟨hi, -⟩ := List.getElem?_eq_some_iff.mp hv
    rw [List.getElem?_append_left hi, hv]
  cases hx with
  | consume h => exact .consume h
  | drop h => exact .drop h
  | copy h => exact .copy h
  | copyUnder ha hb => exact .copyUnder ha hb
  | swap ha hb => exact .swap ha hb
  | load hindex hv hread => exact .load hindex (hget hv) hread
  | store hsize hadmits =>
      rw [← Frame.storeAt_append hadmits.2]
      refine .store hsize ?_
      rw [List.length_append]
      exact hadmits.append
  | read hindex hv hread => exact .read hindex (hget hv) hread
  | recast hsize => exact .recast hsize

/-- A step that succeeds does the same to a wider frame. -/
theorem Transfer.step_widen {f after : Frame} {insn : Instruction}
    (h : step f insn = .ok after) (tail : List Value) (extra : Nat) :
    step (f.widen tail extra) insn = .ok (after.widen tail extra) := by
  obtain ⟨e, taken, given, rest, locals, heffect, hx, hstack, hgiven, hroom,
    rfl⟩ :=
    step_eq_ok_iff_exchange.mp h
  have hwide : e.Exchange Value.read (f.widen tail extra).locals taken given
      (locals ++ tail) := hx.append tail
  refine step_eq_ok_iff_exchange.mpr ⟨e, taken, given, rest, locals ++ tail,
    heffect, hwide, hstack, hgiven, ?_, rfl⟩
  exact hroom.imp_right fun hle => Nat.le_add_right_of_le hle

namespace Analysis

variable {tail : List Value} {extra : Nat} {m : Method} {f : Frame}

theorem handlerFrame_widen {before after : Frame}
    (h : handlerFrame before after = .ok f) (tail : List Value) (extra : Nat) :
    handlerFrame (before.widen tail extra) (after.widen tail extra) =
      .ok (f.widen tail extra) := by
  obtain ⟨hlength, hroom, rfl⟩ := handlerFrame_eq_ok_iff.mp h
  refine handlerFrame_eq_ok_iff.mpr ⟨?_, Nat.lt_add_right extra hroom, ?_⟩
  · simp [Frame.widen, hlength]
  · exact (Frame.join_widen (f := before.caught)
      (g := after.caught) hlength).symm

/-! ## Visits -/

variable {s s' : State} {pos : Nat}

namespace State

/-- The state with wider frames. -/
def widen (tail : List Value) (extra : Nat) (s : State) : State :=
  { s with frames := s.frames.map (Option.map (Frame.widen tail extra)) }

theorem frame?_widen (tail : List Value) (extra : Nat) (s : State) (pos : Nat) :
    (s.widen tail extra).frame? pos =
      (s.frame? pos).map (Frame.widen tail extra) :=
  Diagnosis.frameAt?_map (Frame.widen tail extra) s.frames pos

theorem update_widen (tail : List Value) (extra : Nat) (s : State) (pos : Nat)
    (f : Frame) :
    (s.widen tail extra).update pos (f.widen tail extra) =
      (s.update pos f).widen tail extra := by
  simp [update, widen, Array.map_setIfInBounds]

theorem flow_widen (h : s.flow pos f = .ok s') (tail : List Value)
    (extra : Nat) :
    (s.widen tail extra).flow pos (f.widen tail extra) =
      .ok (s'.widen tail extra) := by
  rw [flow] at h ⊢
  rw [frame?_widen]
  cases hframe : s.frame? pos with
  | none =>
      rw [hframe] at h
      cases h
      rw [← update_widen]
      rfl
  | some g =>
      rw [hframe] at h
      dsimp only at h
      split at h
      · cases h
      · rename_i joined changed hmerge
        cases h
        dsimp only [Option.map_some]
        rw [Frame.merge_widen hmerge]
        dsimp only
        split_ifs
        · rw [update_widen]
        · rfl

end State

theorem flowOut_widen {after : Frame} {targets : List Nat}
    (h : flowOut after s targets = .ok s') (tail : List Value) (extra : Nat) :
    flowOut (after.widen tail extra) (s.widen tail extra) targets =
      .ok (s'.widen tail extra) := by
  induction targets generalizing s with
  | nil =>
      cases h
      rfl
  | cons target targets ih =>
      rw [flowOut] at h ⊢
      split at h
      · cases h
      · rename_i s₁ hflow
        rw [State.flow_widen hflow]
        exact ih h

theorem flowToHandlers_widen {after : Frame} {handlers : List Handler}
    (h : flowToHandlers pos after s handlers = .ok s') (tail : List Value)
    (extra : Nat) :
    flowToHandlers pos (after.widen tail extra) (s.widen tail extra) handlers =
      .ok (s'.widen tail extra) := by
  induction handlers generalizing s with
  | nil =>
      cases h
      rfl
  | cons handler handlers ih =>
      rw [flowToHandlers] at h ⊢
      split_ifs at h ⊢
      · rw [State.frame?_widen, Option.getD_map]
        split at h
        · cases h
        · rename_i f hf
          split at h
          · cases h
          · rename_i s₁ hflow
            rw [handlerFrame_widen hf]
            dsimp only
            rw [State.flow_widen hflow]
            exact ih h
      · exact ih h

theorem propagate_widen {insn : Instruction} {before : Frame}
    (h : propagate m s pos insn before = .ok s') (tail : List Value)
    (extra : Nat) :
    propagate m (s.widen tail extra) pos insn (before.widen tail extra) =
      .ok (s'.widen tail extra) := by
  obtain ⟨after, targets, s₁, hstep, hsucc, hout, hcaught⟩ :=
    propagate_eq_ok_iff.mp h
  exact propagate_eq_ok_iff.mpr ⟨after.widen tail extra, targets,
    s₁.widen tail extra, Transfer.step_widen hstep tail extra, hsucc,
    flowOut_widen hout tail extra, flowToHandlers_widen hcaught tail extra⟩

/-- A visit that succeeds does the same to wider frames. -/
theorem visit_widen (h : visit m s pos = .ok s') (tail : List Value)
    (extra : Nat) :
    visit m (s.widen tail extra) pos = .ok (s'.widen tail extra) := by
  have hframe := State.frame?_widen tail extra s pos
  rcases visit_cases h with
    ⟨insn, before, hinsn, hbefore, hpropagate⟩ | ⟨rfl, hskip⟩
  · rw [hbefore, Option.map_some] at hframe
    have hwide : propagate m ((s.widen tail extra).leave pos) pos insn
        (before.widen tail extra) = .ok (s'.widen tail extra) :=
      propagate_widen hpropagate tail extra
    rw [visit_of_frame hinsn hframe, hwide]
    rfl
  · refine visit_of_skip ?_
    intro insn before hinsn hbefore
    rw [hframe] at hbefore
    obtain ⟨before', hbefore', -⟩ := Option.map_eq_some_iff.mp hbefore
    exact hskip insn before' hinsn hbefore'

theorem run_widen {visits : Nat} (h : run m visits s = .ok s')
    (tail : List Value) (extra : Nat) :
    run m visits (s.widen tail extra) = .ok (s'.widen tail extra) := by
  induction visits generalizing s with
  | zero =>
      cases h
      rfl
  | succ visits ih =>
      cases hpending : s.pending with
      | nil =>
          rw [run_of_pending_eq_nil m _ hpending] at h
          cases h
          exact run_of_pending_eq_nil m _ hpending
      | cons pos rest =>
          have hpending' : (s.widen tail extra).pending = pos :: rest :=
            hpending
          rw [run_of_pending m visits hpending] at h
          rw [run_of_pending m visits hpending']
          cases hvisit : visit m s pos with
          | error failure =>
              rw [hvisit] at h
              cases h
          | ok s₁ =>
              rw [hvisit] at h
              rw [visit_widen hvisit]
              exact ih h

/-! ## The entry frame -/

theorem storeLocal_widen {f' : Frame} {index : Nat} {v : Value}
    (h : storeLocal f index v = .ok f') (tail : List Value) (extra : Nat) :
    storeLocal (f.widen tail extra) index v = .ok (f'.widen tail extra) := by
  obtain ⟨hadmits, rfl⟩ := storeLocal_eq_ok_iff.mp h
  refine storeLocal_eq_ok_iff.mpr ⟨?_, ?_⟩
  · simpa [Frame.widen] using hadmits.append
  · simp only [Frame.widen, Frame.withLocals, Frame.storeAt_append hadmits.2]

theorem storeParameters_widen {assumed : Nullability} {f' : Frame}
    {param index : Nat} {types : List Descriptor.FieldType}
    (h : storeParameters m assumed param index f types = .ok f')
    (tail : List Value) (extra : Nat) :
    storeParameters m assumed param index (f.widen tail extra) types =
      .ok (f'.widen tail extra) := by
  induction types generalizing f param index with
  | nil =>
      cases h
      rfl
  | cons t types ih =>
      rw [storeParameters] at h ⊢
      split at h
      · cases h
      · rename_i g hstore
        rw [storeLocal_widen hstore]
        exact ih h

variable {assumed : Nullability} {maxStack maxLocals : Int64}

/-- With larger bounds, the entry frame is wider. -/
theorem entryFrame_widen {entry : Frame}
    (hstack : m.maxStack.toInt ≤ maxStack.toInt)
    (hlocals : m.maxLocals.toInt ≤ maxLocals.toInt)
    (hnew : Frame.new maxLocals.toInt.toNat maxStack.toInt.toNat =
      (Frame.new m.maxLocals.toInt.toNat m.maxStack.toInt.toNat).widen tail
        extra)
    (h : entryFrame assumed m = .ok entry) :
    entryFrame assumed { m with maxStack := maxStack, maxLocals := maxLocals } =
      .ok (entry.widen tail extra) := by
  obtain ⟨hstack₀, hlocals₀, t, f, ht, hslots, hreceiver, hparams⟩ :=
    entryFrame_eq_ok_iff.mp h
  refine entryFrame_eq_ok_iff.mpr ⟨hstack₀.trans hstack, hlocals₀.trans hlocals,
    t, f.widen tail extra, ht, hslots.trans hlocals, ?_, ?_⟩
  · rw [receiverFrame] at hreceiver ⊢
    rw [hnew]
    split_ifs at hreceiver ⊢
    · cases hreceiver
      rfl
    · exact storeLocal_widen hreceiver tail extra
  · refine Eq.trans ?_ (storeParameters_widen hparams tail extra)
    apply storeParameters_congr
    rfl

/-- The visits do not look at the declared bounds. -/
theorem run_withBounds (m : Method) (maxStack maxLocals : Int64) (visits : Nat)
    (s : State) :
    run { m with maxStack := maxStack, maxLocals := maxLocals } visits s =
      run m visits s := by
  have hvisit :
      visit { m with maxStack := maxStack, maxLocals := maxLocals } =
        visit m := rfl
  exact run_congr (fun _ _ _ => trivial) (fun _ _ => by rw [hvisit]) trivial
    visits

theorem start_widen (m : Method) (entry : Frame) (tail : List Value)
    (extra : Nat) :
    start m (entry.widen tail extra) = (start m entry).widen tail extra := by
  simp [start, State.widen, Array.map_setIfInBounds]

theorem visitBound_le (hstack : m.maxStack.toInt ≤ maxStack.toInt)
    (hlocals : m.maxLocals.toInt ≤ maxLocals.toInt) :
    visitBound m ≤
      visitBound { m with maxStack := maxStack, maxLocals := maxLocals } := by
  apply Nat.mul_le_mul_left
  dsimp only
  omega

/-- With larger bounds, the analysis of a method that is accepted finds wider
frames. -/
theorem analyze_widen {frames : Array (Option Frame)}
    (hstack : m.maxStack.toInt ≤ maxStack.toInt)
    (hlocals : m.maxLocals.toInt ≤ maxLocals.toInt)
    (h : analyze assumed m = .ok frames) :
    analyze assumed { m with maxStack := maxStack, maxLocals := maxLocals } =
      .ok (frames.map (Option.map (Frame.widen
        (List.replicate (maxLocals.toInt - m.maxLocals.toInt).toNat .empty)
        (maxStack.toInt - m.maxStack.toInt).toNat))) := by
  by_cases hne : m.instructions = []
  · have hempty : m.instructions.isEmpty := by simp [hne]
    rw [analyze, if_pos hempty] at h ⊢
    cases h
    simp
  · obtain ⟨entry, s, henters, hrun, rfl⟩ := enters_of_analyze hne h
    obtain ⟨hstack₀, hlocals₀, -⟩ := entryFrame_eq_ok_iff.mp henters.entry_eq
    have hnew : Frame.new maxLocals.toInt.toNat maxStack.toInt.toNat =
        (Frame.new m.maxLocals.toInt.toNat m.maxStack.toInt.toNat).widen
          (List.replicate (maxLocals.toInt - m.maxLocals.toInt).toNat .empty)
          (maxStack.toInt - m.maxStack.toInt).toNat := by
      rw [Frame.new_widen]
      congr 1 <;> omega
    have henters' : Enters assumed
        { m with maxStack := maxStack, maxLocals := maxLocals } _ :=
      ⟨hne, henters.handlers,
        entryFrame_widen hstack hlocals hnew henters.entry_eq⟩
    -- The larger bounds also allow more visits, of which no use is made.
    obtain ⟨result, -, hall⟩ := exists_ends_run henters
    have hmore := hall _ (visitBound_le hstack hlocals)
    rw [← hall _ (Nat.le_refl _), hrun] at hmore
    rw [henters'.analyze_eq, run_withBounds]
    change (run m _ (start m _)).map State.frames = _
    rw [start_widen, run_widen hmore]
    rfl

/-- The declared bounds only gate acceptance.  If a method is accepted, then so
is the method with larger bounds.  The same positions are reached with the same
stacks, the local variables are those of before followed by ones that are not
set, and the same positions are diagnosed. -/
theorem bounds_only_gate_acceptance (assumed : Nullability) (m : Method)
    (maxStack maxLocals : Int64) (frames : Array (Option Frame))
    (hstack : m.maxStack.toInt ≤ maxStack.toInt)
    (hlocals : m.maxLocals.toInt ≤ maxLocals.toInt)
    (h : analyze assumed m = .ok frames) :
    ∃ frames', analyze assumed
        { m with maxStack := maxStack, maxLocals := maxLocals } = .ok frames' ∧
      frames'.size = frames.size ∧
      (∀ pos, (Diagnosis.frameAt? frames' pos).isSome =
        (Diagnosis.frameAt? frames pos).isSome) ∧
      (∀ pos f f', Diagnosis.frameAt? frames pos = some f →
        Diagnosis.frameAt? frames' pos = some f' →
        f'.stack = f.stack ∧ f'.slots = f.slots ∧
          f'.locals = f.locals ++
            List.replicate (maxLocals.toInt - m.maxLocals.toInt).toNat .empty) ∧
      Diagnosis.diagnose frames' m.instructions =
        Diagnosis.diagnose frames m.instructions := by
  refine ⟨_, analyze_widen hstack hlocals h, Array.size_map, ?_, ?_,
    Diagnosis.diagnose_widen _ _ _ _⟩
  · intro pos
    rw [Diagnosis.frameAt?_map, Option.isSome_map]
  · intro pos f f' hf hf'
    rw [Diagnosis.frameAt?_map, hf, Option.map_some, Option.some.injEq] at hf'
    subst hf'
    exact ⟨rfl, rfl, rfl⟩

/-- A method whose only parameter takes two slots, the last of its local
variables, and which stores it again and again until that fails. -/
def storeWide : Method where
  owner := text "Counter"
  name := text "spin"
  desc := text "(J)V"
  isStatic := true
  maxStack := 2
  maxLocals := 2
  instructions := [
    .var ⟨22⟩ 0, -- lload 0
    .var ⟨55⟩ 0, -- lstore 0
    .jump .goto 0,
    .plain ⟨191⟩] -- athrow
  handlers := [⟨0, 3, 3, []⟩]
  params := []

/-- The frames that the analysis finds for `storeWide`. -/
def storeWideFrames : Array (Option Frame) :=
  let frame (stack : List Value) (slots : Nat) : Option Frame :=
    some ⟨[.primitive 2, .conflict], stack, slots, 2⟩
  #[frame [] 0, frame [.primitive 2] 2, frame [] 0, frame [.nonNull] 1]

theorem bounds_only_gate_acceptance_storeWide :
    (storeWide.maxStack.toInt ≤ Int64.toInt 5 ∧
      storeWide.maxLocals.toInt ≤ Int64.toInt 4 ∧
      analyze .unknown storeWide = .ok storeWideFrames) ∧
    ∃ frames',
      analyze .unknown { storeWide with maxStack := 5, maxLocals := 4 } =
        .ok frames' ∧
      frames'.size = storeWideFrames.size ∧
      (∀ pos, (Diagnosis.frameAt? frames' pos).isSome =
        (Diagnosis.frameAt? storeWideFrames pos).isSome) ∧
      (∀ pos f f', Diagnosis.frameAt? storeWideFrames pos = some f →
        Diagnosis.frameAt? frames' pos = some f' →
        f'.stack = f.stack ∧ f'.slots = f.slots ∧
          f'.locals = f.locals ++ List.replicate 2 .empty) ∧
      Diagnosis.diagnose frames' storeWide.instructions =
        Diagnosis.diagnose storeWideFrames storeWide.instructions := by
  have hstack : storeWide.maxStack.toInt ≤ Int64.toInt 5 := by decide
  have hlocals : storeWide.maxLocals.toInt ≤ Int64.toInt 4 := by decide
  have hframes : analyze .unknown storeWide = .ok storeWideFrames := by
    decide +kernel
  exact ⟨⟨hstack, hlocals, hframes⟩,
    bounds_only_gate_acceptance .unknown storeWide 5 4 _ hstack hlocals hframes⟩

end Analysis
end Nullness
