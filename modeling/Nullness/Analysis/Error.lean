import Nullness.Flow
import Nullness.Transfer

/-!
# Malformed methods

The analysis gives up on a method whose body does not fit its declaration.  It
reports where it was, and why.
-/

namespace Nullness
namespace Analysis

/-- Why a method cannot be analyzed. -/
inductive Cause where
  /-- An entry of the exception table has an invalid range or target. -/
  | handlerRange (h : Handler)
  /-- The method declares a negative bound. -/
  | bounds (maxStack maxLocals : Int64)
  /-- The method's descriptor is malformed. -/
  | descriptor (e : Descriptor.Error)
  /-- The parameters do not fit the local variables. -/
  | parameterSlots (slots : Nat) (maxLocals : Int64)
  /-- The receiver cannot be stored. -/
  | receiver (e : Frame.Error)
  /-- A parameter cannot be stored. -/
  | parameter (index : Nat) (e : Frame.Error)
  /-- An instruction cannot be carried out. -/
  | transfer (e : Transfer.Error)
  /-- An instruction has no valid successors. -/
  | flow (e : Flow.Error)
  /-- The frame after an instruction does not fit a successor's. -/
  | mergeInto (target : Nat) (e : Frame.Error)
  /-- The states before and after an instruction do not fit together. -/
  | handlerLocals (e : Frame.Error)
  /-- A caught exception cannot be pushed. -/
  | caughtException (e : Frame.Error)
  /-- The frame for a handler does not fit the handler's. -/
  | mergeIntoHandler (target : Nat) (e : Frame.Error)
  deriving DecidableEq, Repr

/-- What a message says about the cause. -/
def Cause.message : Cause → Text
  | .handlerRange h =>
    text "invalid exception handler range: [" ++ Text.ofInt h.start.toInt
      ++ text ", " ++ Text.ofInt h.stop.toInt
      ++ text ") -> " ++ Text.ofInt h.target.toInt
  | .bounds maxStack maxLocals =>
    text "invalid max stack or max locals: stack "
      ++ Text.ofInt maxStack.toInt
      ++ text ", locals " ++ Text.ofInt maxLocals.toInt
  | .descriptor e => e.message
  | .parameterSlots slots maxLocals =>
    text "local variable index out of range: parameters need "
      ++ Text.ofNat slots
      ++ text " slot(s), max locals " ++ Text.ofInt maxLocals.toInt
  | .receiver e => text "receiver: " ++ e.message
  | .parameter index e =>
    text "parameter " ++ Text.ofNat index ++ text ": " ++ e.message
  | .transfer e => e.message
  | .flow e => e.message
  | .mergeInto target e =>
    text "merging into " ++ Text.ofNat target ++ text ": " ++ e.message
  | .handlerLocals e => e.message
  | .caughtException e => text "pushing caught exception: " ++ e.message
  | .mergeIntoHandler target e =>
    text "merging into handler " ++ Text.ofNat target ++ text ": " ++ e.message

/-- A report on a malformed method. -/
structure Malformed where
  /-- The method's signature. -/
  method : Text
  /-- The position and opcode of the offending instruction; without one, the
  declaration itself is at fault. -/
  site : Option (Nat × Opcode)
  cause : Cause
  deriving DecidableEq, Repr

/-- The message about a malformed method. -/
def Malformed.message (e : Malformed) : Text :=
  text "malformed method " ++ e.method
    ++ (match e.site with
      | none => []
      | some (pos, op) =>
        text " at instruction " ++ Text.ofNat pos ++ text " (" ++ op.name
          ++ text ")")
    ++ text ": " ++ e.cause.message

end Analysis
end Nullness
