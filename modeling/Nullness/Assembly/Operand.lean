import Nullness.Assembly.Error
import Nullness.Assembly.Line
import Nullness.Instruction
import Nullness.Number.Literal

/-!
# Instructions from their fields

A line of a method body names an instruction by its mnemonic and gives its
operands.  The form of the opcode decides how many operands there are and how
they are read.  Loads and stores of the first four local variables may be
written with the index in the mnemonic, and the wide variants of some
instructions by mnemonics of their own.
-/

namespace Nullness
namespace Assembly

/-- The labels of a method, each with the position of the instruction it marks,
and the number of instructions. -/
structure Labels where
  positions : List (Text × Nat)
  length : Nat
  deriving DecidableEq, Repr

/-- The position that a label marks.  Only where `allowEnd` is set may it be the
end of the method. -/
def Labels.target (labels : Labels) (allowEnd : Bool) (label : Text) :
    Except (Failure Cause) Int64 :=
  match labels.positions.lookup label with
  | none => .error (.error (.undefinedLabel label))
  | some pos =>
    if pos = labels.length ∧ ¬ allowEnd then
      .error (.error (.emptyLabel label))
    else .ok (Int64.ofNat pos)

/-- The position of the instruction that a label marks. -/
def Labels.instruction (labels : Labels) (label : Text) :
    Except (Failure Cause) Int64 :=
  labels.target false label

/-- Reads an integer operand. -/
def integer (mnemonic operand : Text) : Except (Failure Cause) Int64 :=
  match Number.decimal? operand with
  | some n => .ok n
  | none => .error (.error (.badInteger mnemonic operand))

/-- The mnemonic without the index of a load or store of one of the first four
local variables, and that index. -/
def shortForm? (mnemonic : Text) : Option (Text × Int64) :=
  match Text.cut (byte '_') mnemonic with
  | some (base, [digit]) =>
    if byte '0' ≤ digit && digit ≤ byte '3'
        && (Text.endsWith (text "load") base
          || Text.endsWith (text "store") base) then
      some (base, Int64.ofNat (digit.toNat - 48))
    else none
  | _ => none

/-- The mnemonics of wide variants and the opcodes they are decoded as. -/
def wideVariants : List (Text × Opcode) :=
  [(text "ldc_w", .ldc), (text "ldc2_w", .ldc), (text "goto_w", .goto),
    (text "jsr_w", .jsr)]

/-- The prefix for wide operands. -/
def wideMark : Text := text "wide"

/-- The opcode that a mnemonic is decoded as. -/
def decodedOpcode? (mnemonic : Text) : Option Opcode :=
  match wideVariants.lookup mnemonic with
  | some op => some op
  | none =>
    if mnemonic = wideMark then none else Opcode.ofMnemonic? mnemonic

/-- The element types of arrays of primitive values, and their numbers. -/
def elementTypes : List (Text × Int64) :=
  [(text "boolean", 4), (text "char", 5), (text "float", 6),
    (text "double", 7), (text "byte", 8), (text "short", 9), (text "int", 10),
    (text "long", 11)]

/-- Separates the class from the member in a qualified name, at the last slash
or dot.  Neither part may be empty. -/
def splitMember? (name : Text) : Option (Text × Text) :=
  match Text.cutLastAt (fun b => b == byte '/' || b == byte '.') name with
  | some (owner, member) =>
    if owner.isEmpty || member.isEmpty then none else some (owner, member)
  | none => none

/-- Separates a name from the descriptor that follows it. -/
def splitDescriptor? (name : Text) : Option (Text × Text) :=
  (Text.cut (byte '(') name).map fun (before, after) =>
    (before, byte '(' :: after)

/-- The kind of a constant operand: quoted text, a number, or the name of a
class. -/
def constantKind (operand : Text) (wide : Bool) : ConstantKind :=
  if operand.head? = some (byte '"') then .string
  else if Number.isInteger operand then if wide then .long else .int
  else if Number.isFloat operand then if wide then .double else .float
  else .class_

/-- The field that separates the cases of a switch. -/
def bar : Text := text "|"

/-- Splits a list of fields at the bars. -/
def splitBars (fields : List Text) : List (List Text) :=
  fields.foldr
    (fun field groups =>
      if field = bar then [] :: groups
      else match groups with
        | [] => [[field]]
        | group :: rest => (field :: group) :: rest)
    [[]]

/-- The parts of a case around its colon, wherever its fields are split. -/
def caseParts (fields : List Text) : List Text :=
  Text.splitOn (byte ':') (Text.join [] fields)

/-- The target of the default case of a switch. -/
def defaultTarget (labels : Labels) (mnemonic : Text) (fields : List Text) :
    Except (Failure Cause) Int64 :=
  match caseParts fields with
  | [word, label] =>
    if word = text "default" then labels.instruction label
    else .error (.error (.badDefault mnemonic))
  | _ => .error (.error (.badDefault mnemonic))

/-- The targets of the cases of a switch over a range. -/
def tableTargets (labels : Labels) :
    List (List Text) → Except (Failure Cause) (List Int64)
  | [] => .ok []
  | fields :: cases => do
    let target ← labels.instruction (Text.join [] fields)
    let targets ← tableTargets labels cases
    return target :: targets

/-- The key and the target of a case of a switch over single keys. -/
def lookupCase (labels : Labels) (fields : List Text) :
    Except (Failure Cause) (Int64 × Int64) :=
  match caseParts fields with
  | [key, label] =>
    match Number.decimal? key with
    | none => .error (.error (.lookupKey key))
    | some k => do
      let target ← labels.instruction label
      return (k, target)
  | _ => .error (.error (.lookupCase fields))

/-- The keys and targets of the cases of a switch over single keys. -/
def lookupCases (labels : Labels) :
    List (List Text) → Except (Failure Cause) (List (Int64 × Int64))
  | [] => .ok []
  | fields :: cases => do
    let case ← lookupCase labels fields
    let rest ← lookupCases labels cases
    return case :: rest

/-- The range that a switch over a range gives. -/
def tableRange : List Text → Except (Failure Cause) (Int64 × Int64)
  | [low, high] =>
    match Number.decimal? low, Number.decimal? high with
    | some l, some h =>
      if h.toInt < l.toInt then .error (.error (.tableRange low high))
      else .ok (l, h)
    | _, _ => .error (.error (.tableRange low high))
  | _ => .error (.error .tableUsage)

/-- A switch from its fields.  The cases follow the operands, each after a bar,
and the last of them is the default case.  A switch without any bar has no
default case to look at, which nothing guards against. -/
def switch (labels : Labels) (isTable : Bool) (mnemonic : Text)
    (args : List Text) : Except (Failure Cause) Instruction :=
  match splitBars args with
  | operands :: case :: cases => do
    let groups := case :: cases
    let default ← defaultTarget labels mnemonic
      (groups.getLast (by simp [groups]))
    if isTable then
      let (min, max) ← tableRange operands
      let targets ← tableTargets labels groups.dropLast
      return .tableSwitch min max default targets
    else
      let pairs ← lookupCases labels groups.dropLast
      return .lookupSwitch default (pairs.map (·.1)) (pairs.map (·.2))
  | _ => .error .crash

/-- Refuses an instruction with too few operands. -/
def tooFew {α : Type} (mnemonic : Text) (needed : Nat) (args : List Text) :
    Except (Failure Cause) α :=
  .error (.error (.missingOperands mnemonic needed args.length))

/-- An instruction from its opcode, its mnemonic and its operands.  Operands
beyond the needed ones are ignored, unless none are taken. -/
def withOperands (labels : Labels) (op : Opcode) (mnemonic : Text)
    (args : List Text) : Except (Failure Cause) Instruction :=
  match op.form? with
  | some .pushInt =>
    match args with
    | n :: _ => return .int op (← integer mnemonic n)
    | _ => tooFew mnemonic 1 args
  | some .newArray =>
    match args with
    | element :: _ =>
      match elementTypes.lookup element with
      | some code => .ok (.int op code)
      | none => .error (.error (.elementType element))
    | _ => tooFew mnemonic 1 args
  | some (.load _) | some (.store _) | some .ret =>
    match args with
    | index :: _ => return .var op (← integer mnemonic index)
    | _ => tooFew mnemonic 1 args
  | some .increment =>
    match args with
    | index :: amount :: _ => do
      let i ← integer mnemonic index
      let a ← integer mnemonic amount
      return .increment i a
    | _ => tooFew mnemonic 2 args
  | some (.typed _) =>
    match args with
    | desc :: _ => .ok (.typed op desc)
    | _ => tooFew mnemonic 1 args
  | some (.field _) =>
    match args with
    | name :: desc :: _ =>
      match splitMember? name with
      | some (owner, member) => .ok (.field op owner member desc)
      | none => .error (.error (.fieldName mnemonic name))
    | _ => tooFew mnemonic 2 args
  | some (.invoke _) =>
    match args with
    | name :: _ =>
      match splitDescriptor? name with
      | some (qualified, desc) =>
        match splitMember? qualified with
        | some (owner, member) =>
          .ok (.method op owner member desc (op = .invokeinterface))
        | none => .error (.error (.calledMethod mnemonic name))
      | none => .error (.error (.calledMethod mnemonic name))
    | _ => tooFew mnemonic 1 args
  | some .dynamic =>
    match args with
    | name :: desc :: _ => .ok (.dynamic name desc)
    | [name] =>
      match splitDescriptor? name with
      | some (before, desc) =>
        if before.isEmpty then .error (.error .noDescriptor)
        else .ok (.dynamic before desc)
      | none => .error (.error .noDescriptor)
    | [] => tooFew mnemonic 1 args
  | some (.jump _) =>
    match args with
    | label :: _ => return .jump op (← labels.instruction label)
    | _ => tooFew mnemonic 1 args
  | some .constant =>
    match args with
    | operand :: _ =>
      .ok (.constant (constantKind operand (mnemonic = text "ldc2_w")))
    | _ => tooFew mnemonic 1 args
  | some .tableSwitch => switch labels true mnemonic args
  | some .lookupSwitch => switch labels false mnemonic args
  | some .multiArray =>
    match args with
    | desc :: dims :: _ => return .multiArray desc (← integer mnemonic dims)
    | _ => tooFew mnemonic 2 args
  | _ =>
    if args.isEmpty then .ok (.plain op)
    else .error (.error (.extraOperands mnemonic))

/-- The instruction that a line of a method body stands for. -/
def instruction (labels : Labels) (line : Line) :
    Except (Failure Cause) Instruction :=
  match shortForm? line.head with
  | some (base, index) =>
    match Opcode.ofMnemonic? base with
    | some op => .ok (.var op index)
    | none => .error (.error (.unknownInstruction line.head))
  | none =>
    match decodedOpcode? line.head with
    | some op => withOperands labels op line.head line.args
    | none => .error (.error (.unknownInstruction line.head))

end Assembly
end Nullness
