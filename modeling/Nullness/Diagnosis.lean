import Nullness.Descriptor
import Nullness.Method

/-!
# Diagnosis

Some instructions dereference a value: they reach a field of an object, call
one of its methods, take the length of an array, or enter or leave a monitor.
The diagnosis lists the reachable instructions whose receiver is null or may
be null.
-/

namespace Nullness
namespace Diagnosis

/-- The depth in the stack of the value that an instruction dereferences, if it
dereferences one.  The receiver of a call is below the arguments, each of which
is one stack entry whatever its size. -/
def receiverDepth? (insn : Instruction) : Option Nat :=
  let op := insn.opcode
  if op = .getfield ∨ op = .arraylength ∨ op = .monitorenter
      ∨ op = .monitorexit then some 0
  else if op = .putfield then some 1
  else if op = .invokevirtual ∨ op = .invokespecial
      ∨ op = .invokeinterface then
    match insn with
    | .method _ _ _ desc _ =>
      match Descriptor.parseMethodType desc with
      | .ok t => some t.args.length
      | .error _ => none
    | _ => none
  else none

/-- The value that an instruction dereferences in a frame.  There is none if
the stack is not that deep. -/
def receiver? (f : Frame) (insn : Instruction) : Option Value :=
  (receiverDepth? insn).bind fun depth => f.peek? depth

/-- The frame before the instruction at a position, if it is reachable. -/
def frameAt? (frames : Array (Option Frame)) (pos : Nat) : Option Frame :=
  (frames[pos]?).join

/-- Whether an instruction dereferences a value that is null or may be. -/
def isFlagged (frame : Option Frame) (insn : Instruction) : Bool :=
  match frame with
  | none => false
  | some f =>
    match receiver? f insn with
    | some v => v.nullability.isViolation
    | none => false

/-- The positions, in ascending order, of the reachable instructions that
dereference a value that is null or may be. -/
def diagnose (frames : Array (Option Frame)) (insns : List Instruction) :
    List Nat :=
  insns.zipIdx.filterMap fun (insn, pos) =>
    if isFlagged (frameAt? frames pos) insn then some pos else none

/-- A line for people about an instruction: its position, its mnemonic and the
frame before it. -/
def dumpLine (frame : Option Frame) (insn : Instruction) (pos : Nat) : Text :=
  Text.padZeros 3 (Text.ofNat pos) ++ text " "
    ++ Text.padRight 16 insn.opcode.name ++ text " "
    ++ (match frame with
      | some f => f.render
      | none => text "<unreachable>")

/-- One line for each instruction. -/
def dump (frames : Array (Option Frame)) (insns : List Instruction) :
    List Text :=
  insns.zipIdx.map fun (insn, pos) =>
    dumpLine (frameAt? frames pos) insn pos

end Diagnosis
end Nullness
