import Nullness.Assembly.Basic

/-!
# Printing a method

A method is printed as lines of fields: its class, its header, its bounds, what
is declared about its parameters, one line for each instruction with a label
before it, a label for the end of the code, its exception table, and the line
that ends it.  Labels are named by positions.

Not every method can be written: some operands have no spelling.  What is
printed for them is not meant to be read back.
-/

namespace Nullness
namespace Assembly

/-- The label of a position. -/
def labelOf (pos : Int64) : Text := byte 'L' :: Text.ofInt pos.toInt

/-- An integer operand. -/
def integerText (n : Int64) : Text := Text.ofInt n.toInt

/-- The mnemonic of a constant and an operand of its kind. -/
def constantFields (kind : ConstantKind) : List Text :=
  if kind = .int then [text "ldc", text "0"]
  else if kind = .float then [text "ldc", text "0.0"]
  else if kind = .long then [text "ldc2_w", text "0"]
  else if kind = .double then [text "ldc2_w", text "0.0"]
  else if kind = .string then [text "ldc", text "\"\""]
  else [text "ldc", text "C"]

/-- The spelling of the element type with a number. -/
def elementName (code : Int64) : Text :=
  match elementTypes.find? (·.2 = code) with
  | some (name, _) => name
  | none => []

/-- The last line of a switch. -/
def defaultFields (target : Int64) : List Text :=
  [text "default", text ":", labelOf target]

/-- The lines of an instruction, each as its fields. -/
def instructionLines (insn : Instruction) : List (List Text) :=
  let name := insn.opcode.name
  match insn with
  | .plain _ => [[name]]
  | .int op n =>
    [[name, if op.form? = some .newArray then elementName n else integerText n]]
  | .var _ index => [[name, integerText index]]
  | .increment index amount =>
    [[name, integerText index, integerText amount]]
  | .typed _ desc => [[name, desc]]
  | .field _ owner member desc => [[name, owner ++ text "/" ++ member, desc]]
  | .method _ owner member desc _ =>
    [[name, owner ++ text "/" ++ member ++ desc]]
  | .dynamic member desc => [[name, member, desc]]
  | .jump _ target => [[name, labelOf target]]
  | .constant kind => [constantFields kind]
  | .tableSwitch min max default targets =>
    [name, integerText min, integerText max]
      :: targets.map (fun target => [labelOf target])
      ++ [defaultFields default]
  | .lookupSwitch default keys targets =>
    [name]
      :: List.zipWith
        (fun key target => [integerText key, text ":", labelOf target])
        keys targets
      ++ [defaultFields default]
  | .multiArray desc dims => [[name, desc, integerText dims]]

/-- The line that marks a position. -/
def labelLine (pos : Nat) : List Text :=
  [labelOf (Int64.ofNat pos) ++ text ":"]

/-- The lines of a list of instructions that starts at a position, up to the
label of its end. -/
def bodyLines (pos : Nat) : List Instruction → List (List Text)
  | [] => [labelLine pos]
  | insn :: rest =>
    labelLine pos :: instructionLines insn ++ bodyLines (pos + 1) rest

/-- The lines on the parameters. -/
def paramLines (params : List Nullability) : List (List Text) :=
  params.zipIdx.map fun (n, index) =>
    [text ".param", Text.ofNat index, n.name]

/-- The line of an entry of the exception table. -/
def handlerLine (h : Handler) : List Text :=
  [text ".catch", if h.type.isEmpty then text "all" else h.type,
    text "from", labelOf h.start, text "to", labelOf h.stop,
    text "using", labelOf h.target]

/-- The lines of a method, each as its fields. -/
def methodLines (m : Method) : List (List Text) :=
  (if m.owner.isEmpty then [] else [[text ".class", m.owner]])
    ++ [text ".method" :: (if m.isStatic then [text "static"] else [])
      ++ [m.name ++ m.desc]]
    ++ [[text ".limit", text "stack", integerText m.maxStack],
      [text ".limit", text "locals", integerText m.maxLocals]]
    ++ paramLines m.params
    ++ bodyLines 0 m.instructions
    ++ m.handlers.map handlerLine
    ++ [[text ".end", text "method"]]

/-- Lines of fields as a source text. -/
def renderLines (lines : List (List Text)) : Text :=
  Text.join (text "\n") (lines.map (Text.join (text " ")))

/-- A method as a source text. -/
def print (m : Method) : Text := renderLines (methodLines m)

end Assembly
end Nullness
