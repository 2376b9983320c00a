import Nullness.Descriptor
import Nullness.Instruction

/-!
# The transfer function

`step` gives the frame after an instruction from the frame before it.  It first
determines the effect of the instruction, which needs no frame: an instruction
with a bad descriptor, or whose opcode does not go with its operands, has none.
Then it carries the effect out.

Nothing is known about fields and about the methods that are called, so what
they yield may be null if it is a reference.
-/

namespace Nullness
namespace Transfer

/-- Why an instruction cannot be carried out. -/
inductive Error where
  /-- The frame refuses what the instruction does. -/
  | frame (e : Frame.Error)
  /-- The descriptor of a field, a method or an array is malformed. -/
  | descriptor (e : Descriptor.Error)
  /-- A constructor is called in another way than constructors are. -/
  | constructorCall (op : Opcode) (owner name desc : Text)
  /-- An array type does not have as many dimensions. -/
  | dimensions (dims : Int64) (desc : Text)
  /-- The opcode does not go with the operands. -/
  | noRule (insn : Instruction)
  deriving DecidableEq, Repr

/-- What a message says about the operands of an instruction whose opcode does
not go with them. -/
def operandText : Instruction → Text
  | .plain _ => text "without operands"
  | .int _ _ => text "with an int operand"
  | .var _ _ => text "with a local variable operand"
  | .typed _ _ => text "with a type operand"
  | .field _ _ _ _ => text "with a field operand"
  | .method _ _ _ _ _ => text "with a method operand"
  | .jump _ _ => text "with a jump target"
  | _ => []

/-- The message of an instruction that cannot be carried out. -/
def Error.message : Error → Text
  | .frame e => e.message
  | .descriptor e => e.message
  | .constructorCall op owner name desc =>
    text "malformed descriptor: constructor call " ++ op.name ++ text " "
      ++ owner ++ text "." ++ name ++ desc
  | .dimensions dims desc =>
    text "malformed descriptor: " ++ Text.ofInt dims.toInt
      ++ text " dimensions for " ++ Text.quote desc
  | .noRule insn =>
    text "no transfer rule for instruction: " ++ insn.opcode.name ++ text " "
      ++ operandText insn

/-- A value of a type about which nothing else is known. -/
def valueOfType (t : Descriptor.FieldType) : Value :=
  if t.isReference then .nullable else .primitive t.size

/-- The value of a constant. -/
def valueOfConstant (kind : ConstantKind) : Value :=
  if kind = .int ∨ kind = .float then .primitive 1
  else if kind = .long ∨ kind = .double then .primitive 2
  else if kind = .dynamic then .nullable
  else .nonNull

/-- The effect of reaching a field of a type. -/
def fieldEffect (t : Descriptor.FieldType) : FieldAccess → Effect
  | .getStatic => .consume [] (some (valueOfType t))
  | .putStatic => .consume [t.size] none
  | .getField => .consume [1] (some (valueOfType t))
  | .putField => .consume [t.size, 1] none

/-- The effect of a call: it takes the arguments, the last one first, then the
receiver if there is one, and leaves the result unless that is void. -/
def callEffect (t : Descriptor.MethodType) (receiver : Bool) : Effect :=
  .consume
    (t.args.reverse.map (·.size) ++ if receiver then [1] else [])
    (if t.result.kind = .void then none else some (valueOfType t.result))

/-- The number of array dimensions that a descriptor starts with. -/
def leadingDimensions (desc : Text) : Nat :=
  (desc.takeWhile (· == byte '[')).length

/-- The name under which constructors are called. -/
def constructorName : Text := text "<init>"

/-- The effect of an instruction on every frame. -/
def effect (insn : Instruction) : Except Error Effect :=
  match insn with
  | .plain op =>
    match op.form? with
    | some (.plain e) => .ok e
    | _ => .error (.noRule insn)
  | .int op _ =>
    match op.form? with
    | some .pushInt => .ok (.consume [] (some (.primitive 1)))
    | some .newArray => .ok (.consume [1] (some .nonNull))
    | _ => .error (.noRule insn)
  | .var op index =>
    match op.form? with
    | some (.load size) => .ok (.load index size)
    | some (.store size) => .ok (.store index size)
    | some .ret => .ok (.read index)
    | _ => .error (.noRule insn)
  | .increment index _ => .ok (.read index)
  | .typed op _ =>
    match op.form? with
    | some (.typed e) => .ok e
    | _ => .error (.noRule insn)
  | .field op _ _ desc =>
    match Descriptor.parseFieldType desc with
    | .error e => .error (.descriptor e)
    | .ok t =>
      match op.form? with
      | some (.field access) => .ok (fieldEffect t access)
      | _ => .error (.noRule insn)
  | .method op owner name desc _ =>
    match Descriptor.parseMethodType desc with
    | .error e => .error (.descriptor e)
    | .ok t =>
      if name = constructorName
          ∧ (op ≠ .invokespecial ∨ t.result.kind ≠ .void) then
        .error (.constructorCall op owner name desc)
      else match op.form? with
        | some (.invoke receiver) => .ok (callEffect t receiver)
        | _ => .error (.noRule insn)
  | .dynamic _ desc =>
    match Descriptor.parseMethodType desc with
    | .error e => .error (.descriptor e)
    | .ok t => .ok (callEffect t false)
  | .jump op _ =>
    match op.form? with
    | some (.jump e) => .ok e
    | _ => .error (.noRule insn)
  | .constant kind => .ok (.consume [] (some (valueOfConstant kind)))
  | .tableSwitch _ _ _ _ | .lookupSwitch _ _ _ => .ok (.consume [1] none)
  | .multiArray desc dims =>
    match Descriptor.parseFieldType desc with
    | .error e => .error (.descriptor e)
    | .ok t =>
      if t.kind ≠ .array ∨ dims.toInt < 1
          ∨ (leadingDimensions t.desc : Int) < dims.toInt then
        .error (.dimensions dims desc)
      else
        .ok (.consume (List.replicate dims.toInt.toNat 1) (some .nonNull))

/-- The frame after an instruction. -/
def step (f : Frame) (insn : Instruction) :
    Except (Failure Error) Frame :=
  match effect insn with
  | .error e => .error (.error e)
  | .ok e =>
    match e.run f with
    | .ok _ after => .ok after
    | .error failure _ => .error (failure.map .frame)

end Transfer
end Nullness
