import Nullness.Proofs.Acceptance
import Nullness.Proofs.Paths

/-!
# Unreachable instructions

A position is reachable if control can get there from the first instruction,
along successors and from protected instructions to their handlers.  The
analysis finds a frame for the reachable positions and for no others.

What stands at the other positions has no influence on the analysis, neither on
its frames nor on the failure that it ends with.  There is one exception.  A
subroutine may return to the position after any jump to a subroutine in the
method, so that a jump to a subroutine counts even where it is never reached.
-/

namespace Nullness

/-- Whether an instruction jumps to a subroutine. -/
def Instruction.callsSubroutine : Instruction → Bool
  | .jump op _ => op = .jsr
  | _ => false

namespace Flow

variable {insns insns' : List Instruction}

theorem returnPointsFrom_cons (pos : Nat) (insn : Instruction)
    (rest : List Instruction) :
    returnPointsFrom pos (insn :: rest) =
      if insn.callsSubroutine then (pos + 1) :: returnPointsFrom (pos + 1) rest
      else returnPointsFrom (pos + 1) rest := by
  cases insn with
  | jump op target => simp [returnPointsFrom, Instruction.callsSubroutine]
  | _ => rfl

theorem returnPointsFrom_congr
    (h : insns.map Instruction.callsSubroutine =
      insns'.map Instruction.callsSubroutine) (pos : Nat) :
    returnPointsFrom pos insns = returnPointsFrom pos insns' := by
  induction insns generalizing pos insns' with
  | nil =>
      have hnil : insns' = [] := by simpa [eq_comm] using h
      rw [hnil]
  | cons insn rest ih =>
      obtain ⟨insn', rest', rfl, hhead, htail⟩ := List.map_eq_cons_iff.mp h.symm
      rw [returnPointsFrom_cons, returnPointsFrom_cons, hhead, ih htail.symm]

/-- Of the other instructions of a method, the successors of an instruction
depend on no more than which of them jump to a subroutine. -/
theorem successors_congr
    (h : insns.map Instruction.callsSubroutine =
      insns'.map Instruction.callsSubroutine) (pos : Nat) (insn : Instruction) :
    successors insns pos insn = successors insns' pos insn := by
  have hlength : insns.length = insns'.length := by
    simpa using congrArg List.length h
  have hreturns : returnPoints insns = returnPoints insns' :=
    returnPointsFrom_congr h 0
  unfold successors
  rw [hlength, hreturns]

end Flow

namespace Analysis

/-- The positions that control can get to from the first one. -/
inductive Reachable (m : Method) : Nat → Prop
  | start (hne : m.instructions ≠ []) : Reachable m 0
  | next {pos t : Nat} {insn : Instruction} {targets : List Nat}
      (h : Reachable m pos) (hinsn : m.instructions[pos]? = some insn)
      (hsucc : Flow.successors m.instructions pos insn = .ok targets)
      (ht : t ∈ targets) : Reachable m t
  | caught {pos : Nat} {handler : Handler} (h : Reachable m pos)
      (hmem : handler ∈ m.handlers) (hcovers : handler.covers pos) :
      Reachable m handler.target.toInt.toNat

variable {m : Method} {assumed : Nullability} {entry : Frame}
  {frames : Array (Option Frame)} {s : State} {pos : Nat}
  {insns : List Instruction}

/-! ## Frames and reachable positions -/

theorem stable_reachable (m : Method) :
    Stable m fun pos _ => Reachable m pos where
  next := by
    intro pos insn before after targets t hinsn _ hreachable _ hsucc ht
    exact hreachable.next hinsn hsucc ht
  caught := by
    intro pos insn before after current handler f _ _ hreachable _ _ _ hmem
      hcovers _
    exact hreachable.caught hmem hcovers
  join := by
    intro pos f g _ _ _ hreachable _
    exact hreachable

/-- A solution of the data-flow equations has a frame wherever control gets. -/
theorem Fixpoint.exists_frame (hfix : Fixpoint m entry frames)
    (h : Reachable m pos) : ∃ f, Diagnosis.frameAt? frames pos = some f := by
  induction h with
  | start =>
      obtain ⟨g, hg, -⟩ := hfix.started
      exact ⟨g, hg⟩
  | next _ hinsn hsucc ht ih =>
      obtain ⟨f, hf⟩ := ih
      obtain ⟨after, targets, hprop⟩ := hfix.closed _ _ f hinsn hf
      have hsame := hprop.successors
      rw [hsucc] at hsame
      cases hsame
      obtain ⟨g, hg, -⟩ := hprop.next _ ht
      exact ⟨g, hg⟩
  | caught _ hmem hcovers ih =>
      obtain ⟨f, hf⟩ := ih
      obtain ⟨insn, hinsn⟩ := hfix.exists_instruction hf
      obtain ⟨after, targets, hprop⟩ := hfix.closed _ insn f hinsn hf
      obtain ⟨-, -, g, hg, -⟩ := hprop.caught _ hmem hcovers
      exact ⟨g, hg⟩

theorem isSome_frameAt?_iff_reachable (hne : m.instructions ≠ [])
    (h : analyze assumed m = .ok frames) (pos : Nat) :
    (Diagnosis.frameAt? frames pos).isSome ↔ Reachable m pos := by
  obtain ⟨entry, -, hfix, hstable⟩ := fixpoint_of_analyze hne h
  rw [Option.isSome_iff_exists]
  constructor
  · rintro ⟨f, hf⟩
    exact hstable _ (stable_reachable m) (.start hne) pos f hf
  · intro hreachable
    exact hfix.exists_frame hreachable

/-! ## Changes of unreachable instructions -/

/-- Instructions that can stand in for those of a method: they differ only where
control never gets, and there no jump to a subroutine comes or goes. -/
structure UnreachableChange (m : Method) (insns : List Instruction) : Prop where
  length_eq : insns.length = m.instructions.length
  unreachable : ∀ {pos : Nat} {old new : Instruction},
    m.instructions[pos]? = some old → insns[pos]? = some new → old ≠ new →
      ¬Reachable m pos
  noCall : ∀ {pos : Nat} {old new : Instruction},
    m.instructions[pos]? = some old → insns[pos]? = some new → old ≠ new →
      old.callsSubroutine = false ∧ new.callsSubroutine = false

namespace UnreachableChange

theorem getElem?_eq (h : UnreachableChange m insns) (hpos : Reachable m pos) :
    insns[pos]? = m.instructions[pos]? := by
  by_cases hlt : pos < m.instructions.length
  · have hlt' : pos < insns.length := by rwa [h.length_eq]
    have hold := List.getElem?_eq_getElem hlt
    have hnew := List.getElem?_eq_getElem hlt'
    by_contra hdiffer
    rw [hold, hnew, Option.some.injEq] at hdiffer
    exact h.unreachable hold hnew (Ne.symm hdiffer) hpos
  · have hlength := h.length_eq
    rw [List.getElem?_eq_none (by omega), List.getElem?_eq_none (by omega)]

theorem map_callsSubroutine (h : UnreachableChange m insns) :
    insns.map Instruction.callsSubroutine =
      m.instructions.map Instruction.callsSubroutine := by
  apply List.ext_getElem
  · simpa using h.length_eq
  · intro i hi hi'
    rw [List.getElem_map, List.getElem_map]
    rw [List.length_map] at hi hi'
    by_cases hsame : m.instructions[i] = insns[i]
    · rw [hsame]
    · obtain ⟨hold, hnew⟩ := h.noCall (List.getElem?_eq_getElem hi')
        (List.getElem?_eq_getElem hi) hsame
      rw [hold, hnew]

theorem propagate_eq (h : UnreachableChange m insns) (s : State) (pos : Nat)
    (insn : Instruction) (before : Frame) :
    propagate { m with instructions := insns } s pos insn before =
      propagate m s pos insn before := by
  rw [propagate, propagate, Flow.successors_congr h.map_callsSubroutine]

/-- A visit does the same, because a position with a frame is reachable and has
the same instruction. -/
theorem visit_eq (h : UnreachableChange m insns)
    (hs : ∀ f, s.frame? pos = some f → Reachable m pos) :
    visit { m with instructions := insns } s pos = visit m s pos := by
  rcases visited_or_skipped m s pos with ⟨insn, before, hinsn, hbefore⟩ | hskip
  · have hinsn' : insns[pos]? = some insn := by
      rw [h.getElem?_eq (hs before hbefore), hinsn]
    have hvisit := visit_of_frame (m := { m with instructions := insns })
      hinsn' hbefore
    rw [hvisit, visit_of_frame hinsn hbefore, h.propagate_eq]
    rfl
  · have hskip' : ∀ insn before, insns[pos]? = some insn →
        s.frame? pos ≠ some before := by
      intro insn before hinsn hbefore
      rw [h.getElem?_eq (hs before hbefore)] at hinsn
      exact hskip insn before hinsn hbefore
    rw [visit_of_skip hskip,
      visit_of_skip (m := { m with instructions := insns }) hskip']

theorem run_eq (h : UnreachableChange m insns)
    (hhandlers : ∀ handler ∈ m.handlers,
      handler.target.toInt.toNat < m.instructions.length)
    (hs : Invariant m (fun pos _ => Reachable m pos) entry s) (visits : Nat) :
    run { m with instructions := insns } visits s = run m visits s := by
  have hnext : ∀ {s s' pos}, Invariant m (fun pos _ =>
      Reachable m pos) entry s →
      pos ∈ s.pending → visit m s pos = .ok s' →
      Invariant m (fun pos _ => Reachable m pos) entry s' := by
    intro s s' pos hs hmem hvisit
    exact (hs.visit (stable_reachable m) hhandlers hmem hvisit).1
  refine (run_congr hnext ?_ hs visits).symm
  intro s pos hs hmem
  exact (h.visit_eq fun f hf => hs.holding.holds hf).symm

theorem enter_eq (h : UnreachableChange m insns) (assumed : Nullability) :
    enter assumed { m with instructions := insns } = enter assumed m := by
  have hbad : badHandler? { m with instructions := insns } = badHandler? m := by
    rw [badHandler?, badHandler?, h.length_eq]
  have hentry := entryFrame_withBody assumed m insns m.handlers
  rw [enter, enter, hbad, hentry]
  rfl

theorem start_eq (h : UnreachableChange m insns) (entry : Frame) :
    start { m with instructions := insns } entry = start m entry := by
  rw [start, start, h.length_eq]

theorem visitBound_eq (h : UnreachableChange m insns) :
    visitBound { m with instructions := insns } = visitBound m := by
  rw [visitBound, visitBound, h.length_eq]

theorem analyze_eq (h : UnreachableChange m insns) (assumed : Nullability) :
    analyze assumed { m with instructions := insns } = analyze assumed m := by
  by_cases hne : m.instructions = []
  · have hlength := h.length_eq
    rw [hne, List.length_nil, List.length_eq_zero_iff] at hlength
    rw [hlength, ← hne]
  · have hne' : insns ≠ [] := by
      apply List.ne_nil_of_length_pos
      rw [h.length_eq]
      exact List.length_pos_of_ne_nil hne
    rw [analyze_eq_bind assumed hne,
      analyze_eq_bind (m := { m with instructions := insns }) assumed hne',
      h.enter_eq, h.visitBound_eq]
    cases hentry : enter assumed m with
    | error failure => rfl
    | ok entry =>
        have henters := enters_of_enter hne hentry
        have hs := henters.invariant_start
          (Q := fun pos _ => Reachable m pos) (.start hne)
        change (run _ _ (start _ entry)).map _ = (run m _ (start m entry)).map _
        rw [h.start_eq, h.run_eq henters.target_lt hs]

end UnreachableChange

/-- The analysis skips exactly what control never gets to, and what stands there
has no influence on it. -/
theorem analyze_skips_unreachable (assumed : Nullability) (m : Method) :
    (∀ frames, m.instructions ≠ [] → analyze assumed m = .ok frames →
      frames.size = m.instructions.length ∧
        ∀ pos, (Diagnosis.frameAt? frames pos).isSome ↔ Reachable m pos) ∧
      ∀ insns, UnreachableChange m insns →
        analyze assumed { m with instructions := insns } =
          analyze assumed m := by
  constructor
  · intro frames hne hok
    obtain ⟨entry, -, hfix, -⟩ := fixpoint_of_analyze hne hok
    exact ⟨hfix.size_eq, isSome_frameAt?_iff_reachable hne hok⟩
  · intro insns hchange
    exact hchange.analyze_eq assumed

/-- A method that calls a subroutine and returns.  Its third instruction is
never reached, although a handler protects it. -/
def callOnce : Method where
  owner := text "Node"
  name := text "call"
  desc := text "()V"
  isStatic := true
  maxStack := 1
  maxLocals := 1
  instructions := [
    .jump .jsr 3,
    .plain ⟨177⟩, -- return
    .plain ⟨1⟩, -- aconst_null
    .var ⟨58⟩ 0, -- astore 0
    .var .ret 0]
  handlers := [⟨2, 3, 0, []⟩]
  params := []

/-- The frames that the analysis finds for it. -/
def callOnceFrames : Array (Option Frame) :=
  #[some ⟨[.empty], [], 0, 1⟩, some ⟨[.nonNull], [], 0, 1⟩, none,
    some ⟨[.empty], [.nonNull], 1, 1⟩, some ⟨[.nonNull], [], 0, 1⟩]

/-- In place of its third instruction there can be a jump out of the method. -/
theorem analyze_skips_unreachable_callOnce :
    analyze .unknown callOnce = .ok callOnceFrames ∧
      ¬Reachable callOnce 2 ∧ Reachable callOnce 1 ∧
      UnreachableChange callOnce (callOnce.instructions.set 2 (.jump .goto 9)) ∧
      analyze .unknown { callOnce with
        instructions := callOnce.instructions.set 2 (.jump .goto 9) } =
          .ok callOnceFrames := by
  have hok : analyze .unknown callOnce = .ok callOnceFrames := by decide +kernel
  obtain ⟨hskips, hignores⟩ := analyze_skips_unreachable .unknown callOnce
  have hreachable := (hskips callOnceFrames (by decide) hok).2
  have hdead : ¬Reachable callOnce 2 := by
    rw [← hreachable]
    decide
  have hchange : UnreachableChange callOnce
      (callOnce.instructions.set 2 (.jump .goto 9)) := by
    have honly : ∀ {pos : Nat} {old new : Instruction},
        callOnce.instructions[pos]? = some old →
        (callOnce.instructions.set 2 (.jump .goto 9))[pos]? = some new →
        old ≠ new → pos = 2 := by
      intro pos old new hold hnew hne
      by_contra hpos
      rw [List.getElem?_set_ne (Ne.symm hpos), hold] at hnew
      exact hne (Option.some.inj hnew)
    refine ⟨by decide, ?_, ?_⟩
    · intro pos old new hold hnew hne
      rw [honly hold hnew hne]
      exact hdead
    · intro pos old new hold hnew hne
      obtain rfl := honly hold hnew hne
      cases hold
      cases hnew
      decide
  refine ⟨hok, hdead, ?_, hchange, ?_⟩
  · rw [← hreachable]
    decide
  · rw [hignores _ hchange, hok]

end Analysis
end Nullness
