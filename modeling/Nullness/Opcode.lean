import Nullness.Effect

/-!
# The instruction set

The table lists the machine's opcodes in order: the mnemonic of each and the
form of its instructions, which says what operands they have and what they do
to a frame.  Loads and stores of the first four local variables, and the wide
variants of some instructions, have opcodes of their own, but are decoded as
the general instruction; such opcodes are marked `folded`.
-/

namespace Nullness

/-- The four ways to reach a field. -/
inductive FieldAccess where
  | getStatic | putStatic | getField | putField
  deriving DecidableEq, Repr

/-- The form of the instructions of an opcode. -/
inductive Form where
  /-- No operands. -/
  | plain (effect : Effect)
  /-- A small integer to push. -/
  | pushInt
  /-- The element type of a new array of primitive values. -/
  | newArray
  /-- A local variable to load a value of a given size from. -/
  | load (size : UInt8)
  /-- A local variable to store a value of a given size in. -/
  | store (size : UInt8)
  /-- A local variable that holds a return address. -/
  | ret
  /-- A local variable to increment, and by how much. -/
  | increment
  /-- A type. -/
  | typed (effect : Effect)
  /-- A field and its type. -/
  | field (access : FieldAccess)
  /-- A method, called with or without a receiver. -/
  | invoke (receiver : Bool)
  /-- A call site that is linked when it runs. -/
  | dynamic
  /-- A position to jump to. -/
  | jump (effect : Effect)
  /-- A constant. -/
  | constant
  /-- Positions for a range of keys. -/
  | tableSwitch
  /-- Positions for single keys. -/
  | lookupSwitch
  /-- An array type and a number of dimensions. -/
  | multiArray
  /-- Written for another opcode. -/
  | folded
  deriving DecidableEq, Repr

/-- A number that tells which operation an instruction performs.  Numbers
outside the table are accepted and have no rule. -/
structure Opcode where
  code : Int
  deriving DecidableEq, Repr

namespace Opcode

/-- The mnemonic and the form of every opcode, in order from zero. -/
def table : List (String × Form) := [
  ("nop", .plain (.consume [] none)),
  ("aconst_null", .plain (.consume [] (some .null))),
  ("iconst_m1", .plain (.consume [] (some (.primitive 1)))),
  ("iconst_0", .plain (.consume [] (some (.primitive 1)))),
  ("iconst_1", .plain (.consume [] (some (.primitive 1)))),
  ("iconst_2", .plain (.consume [] (some (.primitive 1)))),
  ("iconst_3", .plain (.consume [] (some (.primitive 1)))),
  ("iconst_4", .plain (.consume [] (some (.primitive 1)))),
  ("iconst_5", .plain (.consume [] (some (.primitive 1)))),
  ("lconst_0", .plain (.consume [] (some (.primitive 2)))),
  ("lconst_1", .plain (.consume [] (some (.primitive 2)))),
  ("fconst_0", .plain (.consume [] (some (.primitive 1)))),
  ("fconst_1", .plain (.consume [] (some (.primitive 1)))),
  ("fconst_2", .plain (.consume [] (some (.primitive 1)))),
  ("dconst_0", .plain (.consume [] (some (.primitive 2)))),
  ("dconst_1", .plain (.consume [] (some (.primitive 2)))),
  ("bipush", .pushInt),
  ("sipush", .pushInt),
  ("ldc", .constant),
  ("ldc_w", .folded),
  ("ldc2_w", .folded),
  ("iload", .load 1),
  ("lload", .load 2),
  ("fload", .load 1),
  ("dload", .load 2),
  ("aload", .load 1),
  ("iload_0", .folded),
  ("iload_1", .folded),
  ("iload_2", .folded),
  ("iload_3", .folded),
  ("lload_0", .folded),
  ("lload_1", .folded),
  ("lload_2", .folded),
  ("lload_3", .folded),
  ("fload_0", .folded),
  ("fload_1", .folded),
  ("fload_2", .folded),
  ("fload_3", .folded),
  ("dload_0", .folded),
  ("dload_1", .folded),
  ("dload_2", .folded),
  ("dload_3", .folded),
  ("aload_0", .folded),
  ("aload_1", .folded),
  ("aload_2", .folded),
  ("aload_3", .folded),
  ("iaload", .plain (.consume [1, 1] (some (.primitive 1)))),
  ("laload", .plain (.consume [1, 1] (some (.primitive 2)))),
  ("faload", .plain (.consume [1, 1] (some (.primitive 1)))),
  ("daload", .plain (.consume [1, 1] (some (.primitive 2)))),
  ("aaload", .plain (.consume [1, 1] (some .nullable))),
  ("baload", .plain (.consume [1, 1] (some (.primitive 1)))),
  ("caload", .plain (.consume [1, 1] (some (.primitive 1)))),
  ("saload", .plain (.consume [1, 1] (some (.primitive 1)))),
  ("istore", .store 1),
  ("lstore", .store 2),
  ("fstore", .store 1),
  ("dstore", .store 2),
  ("astore", .store 1),
  ("istore_0", .folded),
  ("istore_1", .folded),
  ("istore_2", .folded),
  ("istore_3", .folded),
  ("lstore_0", .folded),
  ("lstore_1", .folded),
  ("lstore_2", .folded),
  ("lstore_3", .folded),
  ("fstore_0", .folded),
  ("fstore_1", .folded),
  ("fstore_2", .folded),
  ("fstore_3", .folded),
  ("dstore_0", .folded),
  ("dstore_1", .folded),
  ("dstore_2", .folded),
  ("dstore_3", .folded),
  ("astore_0", .folded),
  ("astore_1", .folded),
  ("astore_2", .folded),
  ("astore_3", .folded),
  ("iastore", .plain (.consume [1, 1, 1] none)),
  ("lastore", .plain (.consume [2, 1, 1] none)),
  ("fastore", .plain (.consume [1, 1, 1] none)),
  ("dastore", .plain (.consume [2, 1, 1] none)),
  ("aastore", .plain (.consume [1, 1, 1] none)),
  ("bastore", .plain (.consume [1, 1, 1] none)),
  ("castore", .plain (.consume [1, 1, 1] none)),
  ("sastore", .plain (.consume [1, 1, 1] none)),
  ("pop", .plain (.shuffle (.drop .one))),
  ("pop2", .plain (.shuffle (.drop .two))),
  ("dup", .plain (.shuffle (.copy .one))),
  ("dup_x1", .plain (.shuffle (.copyUnder .one .one))),
  ("dup_x2", .plain (.shuffle (.copyUnder .one .two))),
  ("dup2", .plain (.shuffle (.copy .two))),
  ("dup2_x1", .plain (.shuffle (.copyUnder .two .one))),
  ("dup2_x2", .plain (.shuffle (.copyUnder .two .two))),
  ("swap", .plain (.shuffle .swap)),
  ("iadd", .plain (.consume [1, 1] (some (.primitive 1)))),
  ("ladd", .plain (.consume [2, 2] (some (.primitive 2)))),
  ("fadd", .plain (.consume [1, 1] (some (.primitive 1)))),
  ("dadd", .plain (.consume [2, 2] (some (.primitive 2)))),
  ("isub", .plain (.consume [1, 1] (some (.primitive 1)))),
  ("lsub", .plain (.consume [2, 2] (some (.primitive 2)))),
  ("fsub", .plain (.consume [1, 1] (some (.primitive 1)))),
  ("dsub", .plain (.consume [2, 2] (some (.primitive 2)))),
  ("imul", .plain (.consume [1, 1] (some (.primitive 1)))),
  ("lmul", .plain (.consume [2, 2] (some (.primitive 2)))),
  ("fmul", .plain (.consume [1, 1] (some (.primitive 1)))),
  ("dmul", .plain (.consume [2, 2] (some (.primitive 2)))),
  ("idiv", .plain (.consume [1, 1] (some (.primitive 1)))),
  ("ldiv", .plain (.consume [2, 2] (some (.primitive 2)))),
  ("fdiv", .plain (.consume [1, 1] (some (.primitive 1)))),
  ("ddiv", .plain (.consume [2, 2] (some (.primitive 2)))),
  ("irem", .plain (.consume [1, 1] (some (.primitive 1)))),
  ("lrem", .plain (.consume [2, 2] (some (.primitive 2)))),
  ("frem", .plain (.consume [1, 1] (some (.primitive 1)))),
  ("drem", .plain (.consume [2, 2] (some (.primitive 2)))),
  ("ineg", .plain (.consume [1] (some (.primitive 1)))),
  ("lneg", .plain (.consume [2] (some (.primitive 2)))),
  ("fneg", .plain (.consume [1] (some (.primitive 1)))),
  ("dneg", .plain (.consume [2] (some (.primitive 2)))),
  ("ishl", .plain (.consume [1, 1] (some (.primitive 1)))),
  ("lshl", .plain (.consume [1, 2] (some (.primitive 2)))),
  ("ishr", .plain (.consume [1, 1] (some (.primitive 1)))),
  ("lshr", .plain (.consume [1, 2] (some (.primitive 2)))),
  ("iushr", .plain (.consume [1, 1] (some (.primitive 1)))),
  ("lushr", .plain (.consume [1, 2] (some (.primitive 2)))),
  ("iand", .plain (.consume [1, 1] (some (.primitive 1)))),
  ("land", .plain (.consume [2, 2] (some (.primitive 2)))),
  ("ior", .plain (.consume [1, 1] (some (.primitive 1)))),
  ("lor", .plain (.consume [2, 2] (some (.primitive 2)))),
  ("ixor", .plain (.consume [1, 1] (some (.primitive 1)))),
  ("lxor", .plain (.consume [2, 2] (some (.primitive 2)))),
  ("iinc", .increment),
  ("i2l", .plain (.consume [1] (some (.primitive 2)))),
  ("i2f", .plain (.consume [1] (some (.primitive 1)))),
  ("i2d", .plain (.consume [1] (some (.primitive 2)))),
  ("l2i", .plain (.consume [2] (some (.primitive 1)))),
  ("l2f", .plain (.consume [2] (some (.primitive 1)))),
  ("l2d", .plain (.consume [2] (some (.primitive 2)))),
  ("f2i", .plain (.consume [1] (some (.primitive 1)))),
  ("f2l", .plain (.consume [1] (some (.primitive 2)))),
  ("f2d", .plain (.consume [1] (some (.primitive 2)))),
  ("d2i", .plain (.consume [2] (some (.primitive 1)))),
  ("d2l", .plain (.consume [2] (some (.primitive 2)))),
  ("d2f", .plain (.consume [2] (some (.primitive 1)))),
  ("i2b", .plain (.consume [1] (some (.primitive 1)))),
  ("i2c", .plain (.consume [1] (some (.primitive 1)))),
  ("i2s", .plain (.consume [1] (some (.primitive 1)))),
  ("lcmp", .plain (.consume [2, 2] (some (.primitive 1)))),
  ("fcmpl", .plain (.consume [1, 1] (some (.primitive 1)))),
  ("fcmpg", .plain (.consume [1, 1] (some (.primitive 1)))),
  ("dcmpl", .plain (.consume [2, 2] (some (.primitive 1)))),
  ("dcmpg", .plain (.consume [2, 2] (some (.primitive 1)))),
  ("ifeq", .jump (.consume [1] none)),
  ("ifne", .jump (.consume [1] none)),
  ("iflt", .jump (.consume [1] none)),
  ("ifge", .jump (.consume [1] none)),
  ("ifgt", .jump (.consume [1] none)),
  ("ifle", .jump (.consume [1] none)),
  ("if_icmpeq", .jump (.consume [1, 1] none)),
  ("if_icmpne", .jump (.consume [1, 1] none)),
  ("if_icmplt", .jump (.consume [1, 1] none)),
  ("if_icmpge", .jump (.consume [1, 1] none)),
  ("if_icmpgt", .jump (.consume [1, 1] none)),
  ("if_icmple", .jump (.consume [1, 1] none)),
  ("if_acmpeq", .jump (.consume [1, 1] none)),
  ("if_acmpne", .jump (.consume [1, 1] none)),
  ("goto", .jump (.consume [] none)),
  ("jsr", .jump (.consume [] (some .nonNull))),
  ("ret", .ret),
  ("tableswitch", .tableSwitch),
  ("lookupswitch", .lookupSwitch),
  ("ireturn", .plain (.consume [1] none)),
  ("lreturn", .plain (.consume [2] none)),
  ("freturn", .plain (.consume [1] none)),
  ("dreturn", .plain (.consume [2] none)),
  ("areturn", .plain (.consume [1] none)),
  ("return", .plain (.consume [] none)),
  ("getstatic", .field .getStatic),
  ("putstatic", .field .putStatic),
  ("getfield", .field .getField),
  ("putfield", .field .putField),
  ("invokevirtual", .invoke true),
  ("invokespecial", .invoke true),
  ("invokestatic", .invoke false),
  ("invokeinterface", .invoke true),
  ("invokedynamic", .dynamic),
  ("new", .typed (.consume [] (some .nonNull))),
  ("newarray", .newArray),
  ("anewarray", .typed (.consume [1] (some .nonNull))),
  ("arraylength", .plain (.consume [1] (some (.primitive 1)))),
  ("athrow", .plain (.consume [1] none)),
  ("checkcast", .typed .recast),
  ("instanceof", .typed (.consume [1] (some (.primitive 1)))),
  ("monitorenter", .plain (.consume [1] none)),
  ("monitorexit", .plain (.consume [1] none)),
  ("wide", .folded),
  ("multianewarray", .multiArray),
  ("ifnull", .jump (.consume [1] none)),
  ("ifnonnull", .jump (.consume [1] none)),
  ("goto_w", .folded),
  ("jsr_w", .folded)]

/-- The row of an opcode in the table. -/
def row? (op : Opcode) : Option (String × Form) :=
  if op.code < 0 then none else table[op.code.toNat]?

/-- The form of an opcode's instructions. -/
def form? (op : Opcode) : Option Form := op.row?.map (·.2)

/-- The mnemonics of the table, in order. -/
def mnemonics : List Text := table.map fun (mnemonic, _) => text mnemonic

/-- The mnemonic of an opcode. -/
def mnemonic? (op : Opcode) : Option Text :=
  if op.code < 0 then none else mnemonics[op.code.toNat]?

/-- An opcode as text: its mnemonic, or its number. -/
def name (op : Opcode) : Text :=
  match op.mnemonic? with
  | some mnemonic => mnemonic
  | none => text "opcode(" ++ Text.ofInt op.code ++ text ")"

/-- The opcode of a mnemonic. -/
def ofMnemonic? (t : Text) : Option Opcode :=
  (mnemonics.findIdx? (· == t)).map fun i => ⟨i⟩

/-- Pushes a constant. -/
def ldc : Opcode := ⟨18⟩

/-- Adds to a local variable. -/
def iinc : Opcode := ⟨132⟩

/-- Jumps always. -/
def goto : Opcode := ⟨167⟩

/-- Jumps to a subroutine. -/
def jsr : Opcode := ⟨168⟩

/-- Returns from a subroutine. -/
def ret : Opcode := ⟨169⟩

/-- Jumps by a table over a range of keys. -/
def tableswitch : Opcode := ⟨170⟩

/-- Jumps by a list of keys. -/
def lookupswitch : Opcode := ⟨171⟩

/-- Reads a field of an object. -/
def getfield : Opcode := ⟨180⟩

/-- Writes a field of an object. -/
def putfield : Opcode := ⟨181⟩

/-- Calls a method of an object. -/
def invokevirtual : Opcode := ⟨182⟩

/-- Calls a constructor or another method without dispatch. -/
def invokespecial : Opcode := ⟨183⟩

/-- Calls a method of an interface. -/
def invokeinterface : Opcode := ⟨185⟩

/-- Calls a site that is linked when it runs. -/
def invokedynamic : Opcode := ⟨186⟩

/-- Takes the length of an array. -/
def arraylength : Opcode := ⟨190⟩

/-- Throws an exception. -/
def athrow : Opcode := ⟨191⟩

/-- Enters a monitor. -/
def monitorenter : Opcode := ⟨194⟩

/-- Leaves a monitor. -/
def monitorexit : Opcode := ⟨195⟩

/-- Makes an array of several dimensions. -/
def multianewarray : Opcode := ⟨197⟩

/-- Whether an operand-less instruction of this opcode ends the method: it
returns, with or without a value, or it throws. -/
def endsMethod (op : Opcode) : Bool :=
  (172 ≤ op.code && op.code ≤ 177) || op = athrow

end Opcode
end Nullness
