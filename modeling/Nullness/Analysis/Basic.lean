import Nullness.Analysis.Entry

/-!
# The analysis of a method

The analysis finds, for every instruction that can be reached, a frame that
covers all ways of reaching it.  It keeps a frame for each position and a list
of positions whose frame has changed since they were last visited.  Visiting a
position carries its instruction out and merges the result into the frames of
its successors, and into the frames of the handlers that protect it; a handler
may see the local variables from before or from after the instruction.

A visit that finds an inconsistency ends the analysis.  The lowest pending
position is visited first.  Merging only moves a frame up in the order of
frames, and a frame can move up only so often, so that the number of visits
that `visitBound` allows is enough to leave nothing pending.
-/

namespace Nullness
namespace Analysis

/-- The frames found so far, none for a position that has not been reached, and
the pending positions in ascending order. -/
structure State where
  frames : Array (Option Frame)
  pending : List Nat
  deriving DecidableEq, Repr

namespace State

/-- The frame at a position, if the position has been reached. -/
def frame? (s : State) (pos : Nat) : Option Frame :=
  (s.frames[pos]?).join

/-- Adds a position to an ascending list of positions. -/
def insertPosition (pos : Nat) : List Nat → List Nat
  | [] => [pos]
  | q :: rest =>
    if pos < q then pos :: q :: rest
    else if pos = q then q :: rest
    else q :: insertPosition pos rest

/-- Sets the frame at a position and makes the position pending. -/
def update (s : State) (pos : Nat) (f : Frame) : State where
  frames := s.frames.setIfInBounds pos (some f)
  pending := insertPosition pos s.pending

/-- Merges a frame into the one at a position, which becomes pending if that
changes its frame. -/
def flow (s : State) (pos : Nat) (f : Frame) : Except Frame.Error State :=
  match s.frame? pos with
  | none => .ok (s.update pos f)
  | some g =>
    match g.merge f with
    | .error e => .error e
    | .ok (merged, changed) =>
      .ok (if changed then s.update pos merged else s)

end State

/-- The frame that flows from a protected instruction into its handler.  The
instruction may throw before or after it changes the local variables, so those
are merged; the stack holds the caught exception alone. -/
def handlerFrame (before after : Frame) : Except (Failure Cause) Frame :=
  match before.clearStack.merge after.clearStack with
  | .error e => .error (.error (.handlerLocals e))
  | .ok (merged, _) =>
    match Frame.push .nonNull merged with
    | .ok _ f => .ok f
    | .error failure _ => .error (failure.map .caughtException)

/-- Merges the frame after an instruction into those of its successors. -/
def flowOut (after : Frame) : State → List Nat → Except (Failure Cause) State
  | s, [] => .ok s
  | s, target :: targets =>
    match s.flow target after with
    | .error e => .error (.error (.mergeInto target e))
    | .ok s' => flowOut after s' targets

/-- Merges into the frames of the handlers that protect the instruction at a
position.  The state before the instruction is the frame that the position has
at that moment, which an earlier merge of the same visit may have moved up. -/
def flowToHandlers (pos : Nat) (after : Frame) :
    State → List Handler → Except (Failure Cause) State
  | s, [] => .ok s
  | s, h :: handlers =>
    if h.covers pos then
      match handlerFrame ((s.frame? pos).getD after) after with
      | .error failure => .error failure
      | .ok f =>
        match s.flow h.target.toInt.toNat f with
        | .error e =>
          .error (.error (.mergeIntoHandler h.target.toInt.toNat e))
        | .ok s' => flowToHandlers pos after s' handlers
    else flowToHandlers pos after s handlers

/-- Carries out the instruction at a position on a frame and passes the result
on. -/
def propagate (m : Method) (s : State) (pos : Nat) (insn : Instruction)
    (before : Frame) : Except (Failure Cause) State :=
  match Transfer.step before insn with
  | .error failure => .error (failure.map .transfer)
  | .ok after =>
    match Flow.successors m.instructions pos insn with
    | .error e => .error (.error (.flow e))
    | .ok targets =>
      match flowOut after s targets with
      | .error failure => .error failure
      | .ok s' => flowToHandlers pos after s' m.handlers

/-- Visits a position, which is pending no longer.  Errors are reported as
errors of the method at that position. -/
def visit (m : Method) (s : State) (pos : Nat) :
    Except (Failure Malformed) State :=
  let s := { s with pending := s.pending.erase pos }
  match m.instructions[pos]?, s.frame? pos with
  | some insn, some before =>
    match propagate m s pos insn before with
    | .error failure =>
      .error (failure.map (⟨m.signature, some (pos, insn.opcode), ·⟩))
    | .ok s' => .ok s'
  | _, _ => .ok s

/-- Visits the lowest pending position again and again, until none is pending or
a number of visits is used up. -/
def run (m : Method) : (visits : Nat) → State →
    Except (Failure Malformed) State
  | 0, s => .ok s
  | visits + 1, s =>
    match s.pending with
    | [] => .ok s
    | pos :: _ =>
      match visit m s pos with
      | .error failure => .error failure
      | .ok s' => run m visits s'

/-- The state before the first visit: the first position is reached with the
entry frame, and pending. -/
def start (m : Method) (entry : Frame) : State where
  frames := (Array.replicate m.instructions.length none).setIfInBounds 0 entry
  pending := [0]

/-- The number of visits that leave nothing pending.  A position is visited
when it is reached, and again each time its frame moves up: a local variable
can do so three times, and a stack entry once. -/
def visitBound (m : Method) : Nat :=
  m.instructions.length
    * (1 + 3 * m.maxLocals.toInt.toNat + m.maxStack.toInt.toNat)

/-- The first entry of the exception table with an invalid range or target, if
there is one. -/
def badHandler? (m : Method) : Option Handler :=
  let length : Int := m.instructions.length
  m.handlers.find? fun h =>
    h.start.toInt < 0 || h.stop.toInt ≤ h.start.toInt || length < h.stop.toInt
      || h.target.toInt < 0 || length ≤ h.target.toInt

/-- The frame before every instruction of a method, none for an instruction that
cannot be reached.  The first argument is the nullability that is assumed for
reference parameters without a declared one. -/
def analyze (assumed : Nullability) (m : Method) :
    Except (Failure Malformed) (Array (Option Frame)) :=
  if m.instructions.isEmpty then .ok #[]
  else match badHandler? m with
    | some h => .error (.error ⟨m.signature, none, .handlerRange h⟩)
    | none =>
      match entryFrame assumed m with
      | .error failure => .error (failure.map (⟨m.signature, none, ·⟩))
      | .ok entry =>
        match run m (visitBound m) (start m entry) with
        | .error failure => .error failure
        | .ok s => .ok s.frames

end Analysis
end Nullness
