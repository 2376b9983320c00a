import Nullness.Analysis.Error

/-!
# The frame at the start of a method

The parameters are in the first local variables: the receiver, if the method
has one, and then the declared parameters in order, those of two slots taking
two.  A reference parameter has its declared nullability, or else the one that
is assumed for parameters without a declaration.
-/

namespace Nullness
namespace Analysis

/-- The nullability of a reference parameter: the declared one, else the
assumed one, else `nullable`. -/
def effectiveNullability (assumed declared : Nullability) : Nullability :=
  if declared = .unknown then
    if assumed = .unknown then .nullable else assumed
  else declared

/-- The value of a parameter of a given type when the method starts. -/
def parameterValue (assumed declared : Nullability)
    (t : Descriptor.FieldType) : Value :=
  if t.isReference then .ref (effectiveNullability assumed declared)
  else .primitive t.size

/-- Stores a value in a local variable of a frame. -/
def storeLocal (f : Frame) (index : Nat) (v : Value) :
    Except (Failure Frame.Error) Frame :=
  match Frame.setLocal (Int64.ofNat index) v f with
  | .ok _ f' => .ok f'
  | .error failure _ => .error failure

/-- Stores the parameters of the given types, the first of which is parameter
`param` of the method and goes to the local variable at `index`. -/
def storeParameters (m : Method) (assumed : Nullability)
    (param index : Nat) (f : Frame) :
    List Descriptor.FieldType → Except (Failure Cause) Frame
  | [] => .ok f
  | t :: types =>
    match storeLocal f index (parameterValue assumed (m.paramAt param) t) with
    | .error failure => .error (failure.map (.parameter param))
    | .ok f' =>
      storeParameters m assumed (param + 1) (index + t.size.toNat) f' types

/-- The number of local variables that the receiver takes. -/
def receiverSlots (m : Method) : Nat := if m.isStatic then 0 else 1

/-- The frame before the first instruction of a method. -/
def entryFrame (assumed : Nullability) (m : Method) :
    Except (Failure Cause) Frame :=
  if m.maxStack.toInt < 0 ∨ m.maxLocals.toInt < 0 then
    .error (.error (.bounds m.maxStack m.maxLocals))
  else match Descriptor.parseMethodType m.desc with
    | .error e => .error (.error (.descriptor e))
    | .ok t =>
      let slots := t.argSlots + receiverSlots m
      if m.maxLocals.toInt < slots then
        .error (.error (.parameterSlots slots m.maxLocals))
      else
        let f := Frame.new m.maxLocals.toInt.toNat m.maxStack.toInt.toNat
        if m.isStatic then storeParameters m assumed 0 0 f t.args
        else match storeLocal f 0 .nonNull with
          | .error failure => .error (failure.map .receiver)
          | .ok f' => storeParameters m assumed 0 1 f' t.args

end Analysis
end Nullness
