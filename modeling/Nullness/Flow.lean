import Nullness.Method

/-!
# Control flow

`successors` gives the positions that can follow an instruction when it does
not throw.  The graph is never built as a whole: edges are asked for one
instruction at a time, and an edge that leaves the method is only found then.
-/

namespace Nullness
namespace Flow

/-- Why an instruction has no valid successors. -/
inductive Error where
  /-- A target lies outside the method. -/
  | badTarget (target : Int) (length : Nat)
  /-- A switch over a range has another number of targets than keys. -/
  | tableSize (min max : Int64) (targets : Nat)
  /-- A switch over single keys has another number of targets than keys. -/
  | lookupSize (keys targets : Nat)
  /-- The instruction after the last one is reached. -/
  | fallsOff
  deriving DecidableEq, Repr

/-- The message of an instruction without valid successors. -/
def Error.message : Error → Text
  | .badTarget target length =>
    text "control transfer target out of range: " ++ Text.ofInt target
      ++ text " (code length " ++ Text.ofNat length ++ text ")"
  | .tableSize min max targets =>
    text "control transfer target out of range: tableswitch over ["
      ++ Text.ofInt min.toInt ++ text ", " ++ Text.ofInt max.toInt
      ++ text "] has " ++ Text.ofNat targets ++ text " targets"
  | .lookupSize keys targets =>
    text "control transfer target out of range: lookupswitch has "
      ++ Text.ofNat keys ++ text " keys and " ++ Text.ofNat targets
      ++ text " targets"
  | .fallsOff => text "execution falls off the end of the code"

/-- The targets as positions, if all of them lie inside a method of the given
length. -/
def inside (length : Nat) : List Int → Except Error (List Nat)
  | [] => .ok []
  | target :: targets =>
    if target < 0 ∨ (length : Int) ≤ target then
      .error (.badTarget target length)
    else match inside length targets with
      | .error e => .error e
      | .ok positions => .ok (target.toNat :: positions)

/-- The distinct targets of a switch in ascending order. -/
def switchTargets (default : Int64) (targets : List Int64) : List Int :=
  (((default :: targets).map (·.toInt)).mergeSort (· ≤ ·)).eraseReps

/-- The positions after the jumps to subroutines in a list of instructions
that starts at a given position. -/
def returnPointsFrom (pos : Nat) : List Instruction → List Nat
  | [] => []
  | insn :: rest =>
    match insn with
    | .jump op _ =>
      if op = .jsr then (pos + 1) :: returnPointsFrom (pos + 1) rest
      else returnPointsFrom (pos + 1) rest
    | _ => returnPointsFrom (pos + 1) rest

/-- The positions to which a subroutine can return: those after the jumps to
subroutines. -/
def returnPoints (insns : List Instruction) : List Nat :=
  returnPointsFrom 0 insns

/-- The position after an instruction, if the method does not end there. -/
def next (length pos : Nat) : Except Error (List Nat) :=
  if length ≤ pos + 1 then .error .fallsOff else .ok [pos + 1]

/-- The positions that can follow an instruction when it does not throw, in
the order in which they are reached. -/
def successors (insns : List Instruction) (pos : Nat) (insn : Instruction) :
    Except Error (List Nat) :=
  let length := insns.length
  match insn with
  | .jump op target =>
    if op = .goto ∨ op = .jsr then inside length [target.toInt]
    else if length ≤ pos + 1 then .error .fallsOff
    else inside length [(pos : Int) + 1, target.toInt]
  | .tableSwitch min max default targets =>
    if (targets.length : Int) ≠ (max - min + 1).toInt then
      .error (.tableSize min max targets.length)
    else inside length (switchTargets default targets)
  | .lookupSwitch default keys targets =>
    if keys.length ≠ targets.length then
      .error (.lookupSize keys.length targets.length)
    else inside length (switchTargets default targets)
  | .var op _ =>
    if op = .ret then inside length ((returnPoints insns).map Int.ofNat)
    else next length pos
  | .plain op => if op.endsMethod then .ok [] else next length pos
  | _ => next length pos

end Flow
end Nullness
