import Nullness.Proofs.Assembled
import Nullness.Proofs.Reachability

/-!
# What assembling guarantees to the analysis

The analysis checks everything it is told: the bounds, the ranges of the
exception table, and at each visit the successors of an instruction.  Of these
checks, only few can fail for an assembled method, because its control flow has
been resolved.  What is left are handlers with an empty range, a switch over a
range with another number of cases than keys, and a return from a subroutine
that was called by the last instruction.

The number of keys of a range is computed in 64 bits.  It is the right number,
except that a range of all numbers seems to have no keys.
-/

namespace Nullness
namespace Flow

/-! ## Successors of resolved instructions -/

theorem inside_eq_error {length : Nat} {targets : List Int} {e : Error}
    (h : inside length targets = .error e) :
    ∃ target ∈ targets, target < 0 ∨ (length : Int) ≤ target := by
  induction targets with
  | nil => cases h
  | cons target targets ih =>
      rw [inside] at h
      split_ifs at h with hout
      · exact ⟨target, List.mem_cons_self, hout⟩
      · split at h
        · rename_i e' he
          cases h
          obtain ⟨t, ht, hout⟩ := ih he
          exact ⟨t, List.mem_cons_of_mem _ ht, hout⟩
        · cases h

theorem exists_inside_eq_ok {length : Nat} {targets : List Int}
    (h : ∀ target ∈ targets, 0 ≤ target ∧ target < length) :
    ∃ positions, inside length targets = .ok positions := by
  cases hinside : inside length targets with
  | ok positions => exact ⟨positions, rfl⟩
  | error e =>
      obtain ⟨target, htarget, hout⟩ := inside_eq_error hinside
      have := h target htarget
      omega

theorem mem_of_mem_eraseReps {α : Type} [BEq α] {l : List α} {x : α}
    (h : x ∈ l.eraseReps) : x ∈ l := by
  have hloop : ∀ (as acc : List α) (a : α),
      x ∈ List.eraseRepsBy.loop (· == ·) a as acc → x = a ∨ x ∈ as ∨
        x ∈ acc := by
    intro as
    induction as with
    | nil =>
        intro acc a hx
        simpa [List.eraseRepsBy.loop, or_comm] using hx
    | cons b as ih =>
        intro acc a hx
        rw [List.eraseRepsBy.loop] at hx
        split at hx
        · rcases ih acc a hx with hx | hx | hx <;> simp [hx]
        · rcases ih (a :: acc) b hx with hx | hx | hx
          · simp [hx]
          · simp [hx]
          · rcases List.mem_cons.mp hx with hx | hx <;> simp [hx]
  cases l with
  | nil => cases h
  | cons a as => simpa using hloop as [] a h

theorem mem_switchTargets {default : Int64} {targets : List Int64} {t : Int}
    (h : t ∈ switchTargets default targets) :
    ∃ target ∈ default :: targets, t = target.toInt := by
  have hmem := List.mem_mergeSort.mp (mem_of_mem_eraseReps h)
  obtain ⟨target, htarget, rfl⟩ := List.mem_map.mp hmem
  exact ⟨target, htarget, rfl⟩

theorem mem_returnPointsFrom {insns : List Instruction} {pos p : Nat}
    (h : p ∈ returnPointsFrom pos insns) :
    ∃ i insn, insns[i]? = some insn ∧ insn.callsSubroutine = true ∧
      p = pos + i + 1 := by
  induction insns generalizing pos with
  | nil => cases h
  | cons insn rest ih =>
      have hrest : p ∈ returnPointsFrom (pos + 1) rest →
          ∃ i insn', (insn :: rest)[i]? = some insn' ∧
            insn'.callsSubroutine = true ∧ p = pos + i + 1 := by
        intro hp
        obtain ⟨i, insn', hinsn', hcalls, rfl⟩ := ih hp
        exact ⟨i + 1, insn', hinsn', hcalls, by omega⟩
      rw [returnPointsFrom_cons] at h
      split_ifs at h with hcalls
      · rcases List.mem_cons.mp h with rfl | h
        · exact ⟨0, insn, rfl, hcalls, rfl⟩
        · exact hrest h
      · exact hrest h

/-- A range has as many targets as numbers, or it has all numbers and no
targets. -/
def CountsRange (min max : Int64) (targets : List Int64) : Prop :=
  (targets.length : Int) = max.toInt - min.toInt + 1 ∨
    min = Int64.minValue ∧ max = Int64.maxValue ∧ targets = []

/-- The check on the number of cases, which computes the number of keys in 64
bits, accepts a range if it counts it right, and else only the range of all
numbers. -/
theorem length_eq_count_iff {min max : Int64} {targets : List Int64}
    (hrange : min.toInt ≤ max.toInt) (hlength : targets.length < 2 ^ 63) :
    (targets.length : Int) = (max - min + 1).toInt ↔
      CountsRange min max targets := by
  have hcount : (max - min + 1).toInt =
      (max.toInt - min.toInt + 1).bmod (2 ^ 64) := by
    rw [Int64.toInt_add, Int64.toInt_sub, Int.bmod_add_bmod]
    rfl
  have hmin := Int64.le_toInt min
  have hmax := Int64.toInt_lt max
  have hminValue : min = Int64.minValue ↔ min.toInt = -2 ^ 63 := by
    rw [← Int64.toInt_inj]
    rfl
  have hmaxValue : max = Int64.maxValue ↔ max.toInt = 2 ^ 63 - 1 := by
    rw [← Int64.toInt_inj]
    rfl
  have hnil : targets = [] ↔ targets.length = 0 := List.length_eq_zero_iff.symm
  rw [hcount, CountsRange, hminValue, hmaxValue, hnil, Int.bmod_def]
  generalize targets.length = length at hlength ⊢
  generalize min.toInt = low at hrange hmin ⊢
  generalize max.toInt = high at hrange hmax ⊢
  split_ifs with hsmall <;> omega

/-- Where the successors of an instruction can lie outside of its method
although all its targets are inside: at a switch over a range with a wrong
number of cases, and at a return to the position after the last instruction. -/
inductive Leaves (insns : List Instruction) : Instruction → Prop where
  | miscounted {min max default : Int64} {targets : List Int64}
      (hcount : ¬ CountsRange min max targets) :
      Leaves insns (.tableSwitch min max default targets)
  | returns {index target : Int64}
      (hlast : insns.getLast? = some (.jump .jsr target)) :
      Leaves insns (.var .ret index)

theorem next_ne_error {length pos : Nat} {e : Error} (he : e ≠ .fallsOff) :
    next length pos ≠ .error e := by
  rw [next]
  split_ifs
  · exact fun h => he (Except.error.inj h).symm
  · exact fun h => by cases h

/-- The successors of a switch lie inside of the method if its targets do. -/
theorem exists_inside_switchTargets {length : Nat} {default : Int64}
    {targets : List Int64}
    (h : ∀ target ∈ default :: targets, Inside length target) :
    ∃ positions, inside length (switchTargets default targets) =
      .ok positions := by
  apply exists_inside_eq_ok
  intro t ht
  obtain ⟨target, htarget, rfl⟩ := mem_switchTargets ht
  exact h target htarget

/-- A switch over a range has successors exactly if it has the right number of
cases. -/
theorem successors_tableSwitch_iff {insns : List Instruction} {pos : Nat}
    {min max default : Int64} {targets : List Int64}
    (hresolved :
      (Instruction.tableSwitch min max default targets).Resolved insns.length)
    (hlength : targets.length < 2 ^ 63) :
    (∃ positions, successors insns pos (.tableSwitch min max default targets) =
      .ok positions) ↔ CountsRange min max targets := by
  obtain ⟨hrange, htargets⟩ := hresolved
  rw [← length_eq_count_iff hrange hlength]
  simp only [successors]
  split_ifs with hcount
  · exact ⟨fun ⟨_, h⟩ => (by cases h), fun h => absurd h hcount⟩
  · exact ⟨fun _ => not_not.mp hcount, fun _ =>
      exists_inside_switchTargets htargets⟩

/-- An instruction whose targets lie inside of its method either leaves the
method in one of these ways, or runs into its end. -/
theorem leaves_of_successors {insns : List Instruction} {pos : Nat}
    {insn : Instruction} {e : Error} (hresolved : insn.Resolved insns.length)
    (hcases : ∀ min max default targets,
      insn = .tableSwitch min max default targets → targets.length < 2 ^ 63)
    (h : successors insns pos insn = .error e) (he : e ≠ .fallsOff) :
    Leaves insns insn := by
  cases insn with
  | jump op target =>
      have htarget : Inside insns.length target := hresolved
      simp only [successors] at h
      split_ifs at h with hop hend
      · obtain ⟨t, ht, hout⟩ := inside_eq_error h
        rw [List.mem_singleton.mp ht] at hout
        have := htarget.1
        have := htarget.2
        omega
      · exact absurd (Except.error.inj h).symm he
      · obtain ⟨t, ht, hout⟩ := inside_eq_error h
        simp only [List.mem_cons, List.not_mem_nil, or_false] at ht
        have := htarget.1
        have := htarget.2
        rcases ht with rfl | rfl <;> omega
  | tableSwitch min max default targets =>
      refine .miscounted fun hcount => ?_
      obtain ⟨positions, hok⟩ :=
        (successors_tableSwitch_iff hresolved (hcases _ _ _ _ rfl)).mpr hcount
      rw [h] at hok
      cases hok
  | lookupSwitch default keys targets =>
      obtain ⟨hkeys, htargets⟩ := hresolved
      obtain ⟨positions, hinside⟩ := exists_inside_switchTargets htargets
      simp only [successors, hkeys, ne_eq, not_true_eq_false, if_false,
        hinside] at h
      cases h
  | var op index =>
      simp only [successors] at h
      split_ifs at h with hop
      -- A subroutine returns behind its calls, and only behind the last
      -- instruction there is nothing.
      · subst hop
        obtain ⟨t, ht, hout⟩ := inside_eq_error h
        obtain ⟨p, hp, rfl⟩ := List.mem_map.mp ht
        obtain ⟨i, insn, hinsn, hcalls, rfl⟩ := mem_returnPointsFrom hp
        obtain ⟨hlt, -⟩ := List.getElem?_eq_some_iff.mp hinsn
        have hlast : insns.getLast? = some insn := by
          have hi : i = insns.length - 1 := by
            simp only [Int.ofNat_eq_natCast] at hout
            omega
          rw [List.getLast?_eq_getElem?, ← hi, hinsn]
        cases insn with
        | jump op target =>
            have hjsr : op = .jsr := by
              simpa [Instruction.callsSubroutine] using hcalls
            exact .returns (hjsr ▸ hlast)
        | _ => cases hcalls
      · exact absurd h (next_ne_error he)
  | plain op =>
      simp only [successors] at h
      split_ifs at h
      exact absurd h (next_ne_error he)
  | _ => exact absurd h (next_ne_error he)

end Flow

namespace Analysis

/-! ## What the analysis can report -/

/-- What the visit of an instruction can report.  Of the checks on control flow
it makes the one on successors. -/
def Cause.OfVisit (m : Method) (pos : Nat) (insn : Instruction) : Cause → Prop
  | .flow e => Flow.successors m.instructions pos insn = .error e
  | .transfer _ | .mergeInto _ _ | .handlerLocals _ | .caughtException _
  | .mergeIntoHandler _ _ => True
  | _ => False

/-- What can be reported about the parameters of a method. -/
def Cause.isOfEntry : Cause → Bool
  | .descriptor _ | .parameterSlots _ _ | .receiver _ | .parameter _ _ => true
  | _ => false

variable {m : Method} {s : State} {pos : Nat} {insn : Instruction}
    {cause : Cause}

theorem ofVisit_of_flowOut {after : Frame} {targets : List Nat}
    (h : flowOut after s targets = .error (.error cause)) :
    cause.OfVisit m pos insn := by
  induction targets generalizing s with
  | nil => cases h
  | cons target targets ih =>
      rw [flowOut] at h
      split at h
      · cases h
        trivial
      · exact ih h

theorem ofVisit_of_handlerFrame {before after : Frame}
    (h : handlerFrame before after = .error (.error cause)) :
    cause.OfVisit m pos insn := by
  rw [handlerFrame] at h
  split at h
  · cases h
    trivial
  · split at h
    · cases h
    · rename_i failure _ _
      cases failure with
      | crash => cases h
      | error e =>
          cases h
          trivial

theorem ofVisit_of_flowToHandlers {after : Frame}
    {handlers : List Handler} {at_ : Nat}
    (h : flowToHandlers at_ after s handlers = .error (.error cause)) :
    cause.OfVisit m pos insn := by
  induction handlers generalizing s with
  | nil => cases h
  | cons entry handlers ih =>
      rw [flowToHandlers] at h
      split_ifs at h
      · split at h
        · rename_i failure hframe
          cases h
          exact ofVisit_of_handlerFrame hframe
        · split at h
          · cases h
            trivial
          · exact ih h
      · exact ih h

theorem ofVisit_of_propagate {before : Frame}
    (h : propagate m s pos insn before = .error (.error cause)) :
    cause.OfVisit m pos insn := by
  rw [propagate] at h
  split at h
  · rename_i failure _
    cases failure with
    | crash => cases h
    | error e =>
        cases h
        trivial
  · split at h
    · rename_i e hsuccessors
      cases h
      exact hsuccessors
    · split at h
      · rename_i failure hout
        cases h
        exact ofVisit_of_flowOut hout
      · exact ofVisit_of_flowToHandlers h

/-- A report that the visit of some instruction can make. -/
def Malformed.OfVisit (m : Method) (e : Malformed) : Prop :=
  ∃ pos insn, m.instructions[pos]? = some insn ∧
    e.site = some (pos, insn.opcode) ∧ e.cause.OfVisit m pos insn

theorem ofVisit_of_visit {e : Malformed}
    (h : visit m s pos = .error (.error e)) :
    e.OfVisit m := by
  rw [visit] at h
  split at h
  · rename_i insn before hinsn hbefore
    split at h
    · rename_i failure hfailure
      cases failure with
      | crash => cases h
      | error cause =>
          cases h
          exact ⟨pos, insn, hinsn, rfl, ofVisit_of_propagate hfailure⟩
    · cases h
  · cases h

theorem ofVisit_of_run {visits : Nat} {e : Malformed}
    (h : run m visits s = .error (.error e)) : e.OfVisit m := by
  induction visits generalizing s with
  | zero => cases h
  | succ visits ih =>
      rw [run] at h
      split at h
      · cases h
      · split at h
        · rename_i failure hvisit
          cases h
          exact ofVisit_of_visit hvisit
        · exact ih h

theorem isOfEntry_of_storeParameters {assumed : Nullability} {param index : Nat}
    {f : Frame} {types : List Descriptor.FieldType}
    (h : storeParameters m assumed param index f types =
      .error (.error cause)) :
    cause.isOfEntry = true := by
  induction types generalizing param index f with
  | nil => cases h
  | cons t types ih =>
      rw [storeParameters] at h
      split at h
      · rename_i failure _
        cases failure with
        | crash => cases h
        | error e =>
            cases h
            rfl
      · exact ih h

theorem isOfEntry_of_entryFrame {assumed : Nullability}
    (hstack : 0 ≤ m.maxStack.toInt) (hlocals : 0 ≤ m.maxLocals.toInt)
    (h : entryFrame assumed m = .error (.error cause)) :
    cause.isOfEntry = true := by
  rw [entryFrame, if_neg (by omega)] at h
  split at h
  · cases h
    rfl
  · dsimp only at h
    split_ifs at h
    · cases h
      rfl
    · exact isOfEntry_of_storeParameters h
    · split at h
      · rename_i failure _
        cases failure with
        | crash => cases h
        | error e =>
            cases h
            rfl
      · exact isOfEntry_of_storeParameters h

/-- What the analysis of a method can report when its bounds are not negative: a
bad entry of the exception table, something about its parameters, or what it
finds when it visits an instruction. -/
theorem analyze_error_cases {assumed : Nullability} {e : Malformed}
    (hm : m.Resolved) (h : analyze assumed m = .error (.error e)) :
    (∃ entry, badHandler? m = some entry ∧ e.cause = .handlerRange entry) ∨
      e.cause.isOfEntry = true ∨ e.OfVisit m := by
  rw [analyze] at h
  split_ifs at h
  split at h
  · rename_i entry hentry
    cases h
    exact .inl ⟨entry, hentry, rfl⟩
  · split at h
    · rename_i failure hfailure
      cases failure with
      | crash => cases h
      | error cause =>
          cases h
          exact .inr
            (.inl (isOfEntry_of_entryFrame hm.maxStack hm.maxLocals hfailure))
    · split at h
      · rename_i failure hrun
        cases h
        exact .inr (.inr (ofVisit_of_run hrun))
      · cases h

/-- The entries of a resolved exception table that are refused have an empty
range. -/
theorem stop_le_start_of_badHandler? {entry : Handler} (hm : m.Resolved)
    (h : badHandler? m = some entry) :
    entry ∈ m.handlers ∧ entry.stop.toInt ≤ entry.start.toInt := by
  have hmem : entry ∈ m.handlers := List.mem_of_find?_eq_some h
  have hbad := List.find?_some h
  have hresolved := hm.handlers entry hmem
  have hstart := hresolved.start.1
  have hstop := hresolved.stop.2
  have htarget := hresolved.target
  simp only [Bool.or_eq_true, decide_eq_true_eq] at hbad
  refine ⟨hmem, ?_⟩
  have := htarget.1
  have := htarget.2
  omega

end Analysis

namespace Assembly

open Analysis

/-- What assembling guarantees to the analysis, for a source text of a size that
a number of 64 bits can hold.  Every position that a method names is its own,
and its bounds are not negative.  So the analysis never reports its bounds, of
its exception table only an entry with an empty range, and of its control flow,
apart from running into the end, only a switch with a wrong number of cases or a
return behind the last instruction.  The number of cases is right exactly if the
switch has successors. -/
theorem assembled_analysis_guarantees (source : Text)
    (hsize : source.length < 2 ^ 63) (ms : List Method)
    (h : parse source = .ok ms) (m : Method) (hm : m ∈ ms) :
    m.Resolved ∧
    (∀ assumed e, analyze assumed m = .error (.error e) →
      (∀ maxStack maxLocals, e.cause ≠ .bounds maxStack maxLocals) ∧
      (∀ entry, e.cause = .handlerRange entry →
        entry ∈ m.handlers ∧ entry.stop.toInt ≤ entry.start.toInt) ∧
      (∀ error, e.cause = .flow error → error ≠ .fallsOff →
        ∃ pos insn, m.instructions[pos]? = some insn ∧
          e.site = some (pos, insn.opcode) ∧ Flow.Leaves m.instructions insn)) ∧
    ∀ pos min max default targets,
      .tableSwitch min max default targets ∈ m.instructions →
      ((∃ positions, Flow.successors m.instructions pos
          (.tableSwitch min max default targets) = .ok positions) ↔
        Flow.CountsRange min max targets) := by
  have hresolved := resolved_of_parse hsize h m hm
  refine ⟨hresolved, fun assumed e herror => ?_,
    fun pos min max default targets hinsn =>
    Flow.successors_tableSwitch_iff (hresolved.instructions _ hinsn)
      (length_targets_lt_of_parse hsize h hm hinsn)⟩
  rcases analyze_error_cases hresolved herror with ⟨entry, hbad, hcause⟩ |
    hentry | hvisit
  · rw [hcause]
    refine ⟨by simp, ?_, by simp⟩
    rintro entry' heq
    cases heq
    exact stop_le_start_of_badHandler? hresolved hbad
  · cases hcause : e.cause <;> simp [hcause, Cause.isOfEntry] at hentry ⊢
  · obtain ⟨pos, insn, hinsn, hsite, hvisit⟩ := hvisit
    have hmem := List.mem_of_getElem? hinsn
    refine ⟨fun maxStack maxLocals hcause => ?_, fun entry hcause => ?_,
      fun error hcause hfalls => ⟨pos, insn, hinsn, hsite, ?_⟩⟩
    · rw [hcause] at hvisit
      exact hvisit.elim
    · rw [hcause] at hvisit
      exact hvisit.elim
    · rw [hcause] at hvisit
      refine Flow.leaves_of_successors (hresolved.instructions insn hmem) ?_
        hvisit hfalls
      rintro min max default targets rfl
      exact length_targets_lt_of_parse hsize h hm hmem

/-- A source text with a switch over all numbers that has no cases, and with a
handler for an empty range. -/
def allNumbersSource : Text :=
  Text.join (text "\n") [text ".method static ignore(I)V",
    text ".limit stack 1",
    text ".limit locals 1", text "Start:", text "iload_0",
    text "tableswitch -9223372036854775808 9223372036854775807",
    text "default : End",
    text "End: return", text ".catch all from End to Start using Start",
    text ".end method"]

/-- The method that is assembled from it. -/
def allNumbers : Method where
  owner := []
  name := text "ignore"
  desc := text "(I)V"
  isStatic := true
  maxStack := 1
  maxLocals := 1
  instructions :=
    [.var ⟨21⟩ 0, .tableSwitch Int64.minValue Int64.maxValue 2 [], .plain ⟨177⟩]
  handlers := [⟨2, 0, 0, []⟩]
  params := []

theorem parse_allNumbersSource : parse allNumbersSource = .ok [allNumbers] := by
  decide +kernel

/-- The switch of `allNumbers` passes the check on its cases, and its handler is
what the analysis reports. -/
theorem allNumbers_guarantees :
    allNumbersSource.length < 2 ^ 63 ∧
      parse allNumbersSource = .ok [allNumbers] ∧
      allNumbers.Resolved ∧
      (∃ positions, Flow.successors allNumbers.instructions 1
        (.tableSwitch Int64.minValue Int64.maxValue 2 []) = .ok positions) ∧
      analyze .unknown allNumbers =
        .error
          (.error ⟨allNumbers.signature, none,
            .handlerRange ⟨2, 0, 0, []⟩⟩) := by
  have hsize : allNumbersSource.length < 2 ^ 63 := by decide +kernel
  obtain ⟨hresolved, -, hcount⟩ :=
    assembled_analysis_guarantees allNumbersSource hsize _
      parse_allNumbersSource allNumbers (by simp)
  refine ⟨hsize, parse_allNumbersSource, hresolved, ?_, by decide +kernel⟩
  exact (hcount 1 _ _ _ _ (by simp [allNumbers])).mpr (.inr ⟨rfl, rfl, rfl⟩)

end Assembly
end Nullness
