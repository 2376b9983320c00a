import Nullness.Assembly.Operand
import Nullness.Method

/-!
# Assembling a source text

A source text holds class directives and methods.  It is read line by line:
`Progress` is what has been read so far, and `advance` takes in one more line.
Inside a method, instruction lines and handlers are collected and labels
recorded; they are resolved when the method ends.  The case lines of a switch
are joined to its first line, separated by bars, up to the default case.

Nothing but the class name passes from one method to the next.
-/

namespace Nullness
namespace Assembly

/-- A method whose end has not been read yet. -/
structure Draft where
  /-- The number of the line that starts the method. -/
  line : Nat
  owner : Text
  name : Text
  desc : Text
  isStatic : Bool
  maxStack : Int64 := 0
  maxLocals : Int64 := 0
  params : List Nullability := []
  /-- The instruction lines. -/
  body : Array Line := #[]
  /-- The lines of the exception table. -/
  catches : Array Line := #[]
  /-- The labels, the newest first. -/
  labels : List (Text × Nat) := []
  deriving DecidableEq, Repr

/-- Where in the source the reader is. -/
inductive Mode where
  /-- Between methods. -/
  | outside
  /-- In the body of a method. -/
  | body (draft : Draft)
  /-- Among the cases of a switch, which so far makes the given line. -/
  | cases (draft : Draft) (head : Line)
  deriving DecidableEq, Repr

/-- What has been read of a source text. -/
structure Progress where
  /-- The class that the next methods belong to. -/
  owner : Text := []
  methods : Array Method := #[]
  mode : Mode := .outside
  deriving DecidableEq, Repr

/-- Reports a cause at a line. -/
def failAt {α : Type} (line : Nat) (cause : Cause) :
    Except (Failure SyntaxError) α :=
  .error (.error ⟨line, cause⟩)

/-- Reports the failures of an operation on a line at that line. -/
def atLine {α : Type} (line : Nat) :
    Except (Failure Cause) α → Except (Failure SyntaxError) α
  | .ok a => .ok a
  | .error failure => .error (failure.map (⟨line, ·⟩))

/-- The method that a header line starts. -/
def Draft.ofHeader (owner : Text) (line : Line) :
    Except (Failure SyntaxError) Draft :=
  match line.args.getLast? with
  | none => failAt line.number .noMethodName
  | some nameDesc =>
    match splitDescriptor? nameDesc with
    | some (name, desc) =>
      if name.isEmpty then failAt line.number (.methodName nameDesc)
      else .ok {
        line := line.number
        owner := owner
        name := name
        desc := desc
        isStatic := line.args.dropLast.contains (text "static") }
    | none => failAt line.number (.methodName nameDesc)

/-- The handler that a line of the exception table stands for. -/
def handler (labels : Labels) (line : Line) :
    Except (Failure Cause) Handler :=
  match line.args with
  | [type, fromWord, start, toWord, stop, usingWord, target] =>
    if fromWord = text "from" ∧ toWord = text "to"
        ∧ usingWord = text "using" then do
      let start ← labels.target false start
      let stop ← labels.target true stop
      let target ← labels.target false target
      return ⟨start, stop, target, if type = text "all" then [] else type⟩
    else .error (.error .catchUsage)
  | _ => .error (.error .catchUsage)

/-- What a function makes of each line, its failures being reported at the
line. -/
def eachLine {α : Type} (f : Line → Except (Failure Cause) α) :
    List Line → Except (Failure SyntaxError) (List α)
  | [] => .ok []
  | line :: lines => do
    let a ← atLine line.number (f line)
    let rest ← eachLine f lines
    return a :: rest

/-- The finished method, with its labels resolved: those of the instructions
first, then those of the handlers. -/
def Draft.finish (draft : Draft) : Except (Failure SyntaxError) Method := do
  let labels : Labels := ⟨draft.labels, draft.body.size⟩
  let instructions ← eachLine (instruction labels) draft.body.toList
  let handlers ← eachLine (handler labels) draft.catches.toList
  return {
    owner := draft.owner
    name := draft.name
    desc := draft.desc
    isStatic := draft.isStatic
    maxStack := draft.maxStack
    maxLocals := draft.maxLocals
    instructions := instructions
    handlers := handlers
    params := draft.params }

/-- Declares a bound of a method. -/
def Draft.limit (draft : Draft) (args : List Text) :
    Except (Failure Cause) Draft :=
  match args with
  | [name, bound] =>
    match Number.decimal? bound with
    | none => .error (.error (.badLimit bound))
    | some n =>
      if n.toInt < 0 then .error (.error (.badLimit bound))
      else if name = text "stack" then .ok { draft with maxStack := n }
      else if name = text "locals" then .ok { draft with maxLocals := n }
      else .error (.error (.unknownLimit name))
  | _ => .error (.error .limitUsage)

/-- The most entries that a list can have: they are counted in 64 bits with a
sign. -/
def maxLength : Nat := Int64.maxValue.toInt.toNat

/-- A list of parameter nullabilities with one of them set.  Parameters that
nothing has been said about are unknown.  The list grows until it has an entry
for the index, which is never the case for the largest index there is. -/
def setParam (params : List Nullability) (index : Nat) (n : Nullability) :
    Except (Failure Cause) (List Nullability) :=
  if index < maxLength then
    let missing := index + 1 - params.length
    .ok ((params ++ List.replicate missing Nullability.unknown).set index n)
  else .error .exhausted

/-- Declares the nullability of a parameter. -/
def Draft.param (draft : Draft) (args : List Text) :
    Except (Failure Cause) Draft :=
  match args with
  | [index, name] =>
    match Number.decimal? index with
    | none => .error (.error (.badParam index))
    | some i =>
      if i.toInt < 0 then .error (.error (.badParam index))
      else match Nullability.ofName? name with
        | none => .error (.error (.badNullability name))
        | some n => do
          let params ← setParam draft.params i.toInt.toNat n
          return { draft with params := params }
  | _ => .error (.error .paramUsage)

/-- The name that a field defines as a label, if it defines one. -/
def labelName? (field : Text) : Option Text :=
  match field.getLast? with
  | some b => if b = byte ':' then some field.dropLast else none
  | none => none

/-- Directives on classes that name the class of the next methods. -/
def classDirectives : List Text := [text ".class", text ".interface"]

/-- Directives outside of methods that say nothing of interest. -/
def ignoredOutside : List Text :=
  [text ".source", text ".super", text ".implements", text ".field"]

/-- Directives inside of methods that say nothing of interest. -/
def ignoredInside : List Text :=
  [text ".line", text ".var", text ".throws", text ".signature"]

/-- The mnemonics of switches, whose cases are on lines of their own. -/
def switchMnemonics : List Text := [text "tableswitch", text "lookupswitch"]

/-- Takes in a line between methods. -/
def advanceOutside (p : Progress) (line : Line) :
    Except (Failure SyntaxError) Progress :=
  if classDirectives.contains line.head then
    match line.args.getLast? with
    | some name => .ok { p with owner := name }
    | none => failAt line.number (.noClassName line.head)
  else if ignoredOutside.contains line.head then .ok p
  else if line.head = text ".method" then do
    let draft ← Draft.ofHeader p.owner line
    return { p with mode := .body draft }
  else failAt line.number (.outsideMethod line.head)

/-- Takes in a line of a method body that starts with a directive or a
mnemonic. -/
def advanceBody (p : Progress) (draft : Draft) (line : Line) :
    Except (Failure SyntaxError) Progress :=
  if line.head = text ".end" then do
    let m ← draft.finish
    return { p with methods := p.methods.push m, mode := .outside }
  else if line.head = text ".limit" then do
    let draft ← atLine line.number (draft.limit line.args)
    return { p with mode := .body draft }
  else if line.head = text ".param" then do
    let draft ← atLine line.number (draft.param line.args)
    return { p with mode := .body draft }
  else if line.head = text ".catch" then
    .ok { p with
      mode := .body { draft with catches := draft.catches.push line } }
  else if ignoredInside.contains line.head
    then .ok { p with mode := .body draft }
  else if switchMnemonics.contains line.head then
    .ok { p with mode := .cases draft line }
  else if line.head.head? = some (byte '.') then
    failAt line.number (.unknownDirective line.head)
  else if line.head = wideMark then
    match Line.ofFields? line.number line.args with
    | none => failAt line.number .wideAlone
    | some line =>
      .ok { p with mode := .body { draft with body := draft.body.push line } }
  else .ok { p with mode := .body { draft with body := draft.body.push line } }

/-- Takes in a line of a method body, which may start with a label. -/
def advanceLabelled (p : Progress) (draft : Draft) (line : Line) :
    Except (Failure SyntaxError) Progress :=
  match labelName? line.head with
  | none => advanceBody p draft line
  | some label =>
    if (draft.labels.lookup label).isSome then
      failAt line.number (.duplicateLabel label)
    else
      let draft :=
        { draft with labels := (label, draft.body.size) :: draft.labels }
      match Line.ofFields? line.number line.args with
      | none => .ok { p with mode := .body draft }
      | some line => advanceBody p draft line

/-- Whether a line is the default case of a switch. -/
def isDefaultCase (line : Line) : Bool :=
  line.head.takeWhile (· != byte ':') = text "default"

/-- Takes in a line among the cases of a switch. -/
def advanceCases (p : Progress) (draft : Draft) (head line : Line) : Progress :=
  let head := { head with args := head.args ++ bar :: line.head :: line.args }
  if isDefaultCase line then
    { p with mode := .body { draft with body := draft.body.push head } }
  else { p with mode := .cases draft head }

/-- Takes in one more line. -/
def advance (p : Progress) (line : Line) :
    Except (Failure SyntaxError) Progress :=
  match p.mode with
  | .outside => advanceOutside p line
  | .body draft => advanceLabelled p draft line
  | .cases draft head => .ok (advanceCases p draft head line)

/-- The methods of a source text that has been read to its end. -/
def Progress.finish (p : Progress) :
    Except (Failure SyntaxError) (List Method) :=
  match p.mode with
  | .outside => .ok p.methods.toList
  | .body draft => failAt draft.line (.noEnd draft.name)
  | .cases _ head => failAt head.number (.noDefault head.head)

/-- The methods of a source text. -/
def parse (source : Text) : Except (Failure SyntaxError) (List Method) := do
  let p ← (readLines source).foldlM advance {}
  p.finish

/-- Why a source text is not that of a single method. -/
inductive SingleError where
  /-- The text cannot be assembled. -/
  | syntaxError (e : SyntaxError)
  /-- The text holds another number of methods. -/
  | count (methods : Nat)
  deriving DecidableEq, Repr

/-- The message about a source text that is not that of a single method. -/
def SingleError.message : SingleError → Text
  | .syntaxError e => e.message
  | .count methods =>
    text "expected exactly one method, got " ++ Text.ofNat methods

/-- The only method of a source text. -/
def parseSingle (source : Text) : Except (Failure SingleError) Method :=
  match parse source with
  | .error failure => .error (failure.map .syntaxError)
  | .ok [m] => .ok m
  | .ok ms => .error (.error (.count ms.length))

end Assembly
end Nullness
