import Nullness.Nullability

/-!
# Syntax errors

A syntax error names a line of the source and what is wrong there.  It is not
the only way in which assembling can fail: the program can also end without a
report.
-/

namespace Nullness
namespace Assembly

/-- What is wrong with a line of assembly. -/
inductive Cause where
  /-- A class directive names no class. -/
  | noClassName (directive : Text)
  /-- A word stands where a directive on classes or methods should. -/
  | outsideMethod (word : Text)
  /-- A method header has no name. -/
  | noMethodName
  /-- A method header does not end in a name and a descriptor. -/
  | methodName (found : Text)
  /-- The source ends inside a method. -/
  | noEnd (name : Text)
  /-- A label is defined twice. -/
  | duplicateLabel (label : Text)
  /-- A directive is unknown. -/
  | unknownDirective (directive : Text)
  /-- The prefix for wide operands stands alone. -/
  | wideAlone
  /-- A bound is not written as one. -/
  | limitUsage
  /-- A bound is no natural number. -/
  | badLimit (found : Text)
  /-- A bound has an unknown name. -/
  | unknownLimit (found : Text)
  /-- A parameter annotation is not written as one. -/
  | paramUsage
  /-- A parameter index is no natural number. -/
  | badParam (found : Text)
  /-- A parameter annotation names no nullability. -/
  | badNullability (found : Text)
  /-- A switch has no default case before the source ends. -/
  | noDefault (mnemonic : Text)
  /-- A label is used but not defined. -/
  | undefinedLabel (label : Text)
  /-- A label is used that stands after the last instruction. -/
  | emptyLabel (label : Text)
  /-- A handler is not written as one. -/
  | catchUsage
  /-- A mnemonic is unknown. -/
  | unknownInstruction (mnemonic : Text)
  /-- An instruction has too few operands. -/
  | missingOperands (mnemonic : Text) (needed found : Nat)
  /-- An operand is no integer. -/
  | badInteger (mnemonic found : Text)
  /-- The element type of an array is unknown. -/
  | elementType (found : Text)
  /-- An operand does not name a field. -/
  | fieldName (mnemonic found : Text)
  /-- An operand does not name a method. -/
  | calledMethod (mnemonic found : Text)
  /-- A dynamic call has no descriptor. -/
  | noDescriptor
  /-- An instruction has operands but takes none. -/
  | extraOperands (mnemonic : Text)
  /-- The last case of a switch is no default case. -/
  | badDefault (mnemonic : Text)
  /-- A switch over a range does not give its range. -/
  | tableUsage
  /-- A switch over a range has an invalid range. -/
  | tableRange (low high : Text)
  /-- A case of a switch is not written as one. -/
  | lookupCase (fields : List Text)
  /-- A key of a switch is no integer. -/
  | lookupKey (found : Text)
  deriving DecidableEq, Repr

/-- What a message says about the cause. -/
def Cause.message : Cause → Text
  | .noClassName directive => directive ++ text " needs a class name"
  | .outsideMethod word =>
    text "unexpected " ++ Text.quote word ++ text " outside of a method"
  | .noMethodName => text ".method needs a name and a descriptor"
  | .methodName found =>
    text "malformed method name and descriptor " ++ Text.quote found
  | .noEnd name => text "method " ++ name ++ text " has no .end method"
  | .duplicateLabel label => text "duplicate label " ++ Text.quote label
  | .unknownDirective directive =>
    text "unknown directive " ++ Text.quote directive
  | .wideAlone => text "wide without an instruction"
  | .limitUsage => text "usage: .limit stack|locals N"
  | .badLimit found => text "invalid limit " ++ Text.quote found
  | .unknownLimit found => text "unknown limit " ++ Text.quote found
  | .paramUsage => text "usage: .param INDEX nullable|nonnull|null"
  | .badParam found => text "invalid parameter index " ++ Text.quote found
  | .badNullability found => Nullability.unknownNameMessage found
  | .noDefault mnemonic => mnemonic ++ text " without a default"
  | .undefinedLabel label => text "undefined label " ++ Text.quote label
  | .emptyLabel label =>
    text "label " ++ Text.quote label ++ text " marks no instruction"
  | .catchUsage => text "usage: .catch TYPE from START to END using HANDLER"
  | .unknownInstruction mnemonic =>
    text "unknown instruction " ++ Text.quote mnemonic
  | .missingOperands mnemonic needed found =>
    mnemonic ++ text " needs " ++ Text.ofNat needed
      ++ text " operand(s), got " ++ Text.ofNat found
  | .badInteger mnemonic found =>
    mnemonic ++ text ": invalid integer " ++ Text.quote found
  | .elementType found =>
    text "newarray: unknown element type " ++ Text.quote found
  | .fieldName mnemonic found =>
    mnemonic ++ text ": expected OWNER/NAME, got " ++ Text.quote found
  | .calledMethod mnemonic found =>
    mnemonic ++ text ": expected OWNER/NAME(DESC)RET, got "
      ++ Text.quote found
  | .noDescriptor => text "invokedynamic: missing descriptor"
  | .extraOperands mnemonic => mnemonic ++ text " takes no operands"
  | .badDefault mnemonic => mnemonic ++ text ": malformed default case"
  | .tableUsage => text "usage: tableswitch LOW HIGH"
  | .tableRange low high =>
    text "tableswitch: invalid range " ++ low ++ text ".." ++ high
  | .lookupCase fields =>
    text "lookupswitch: expected KEY : LABEL, got "
      ++ Text.quote (Text.join (text " ") fields)
  | .lookupKey found => text "lookupswitch: invalid key " ++ Text.quote found

/-- A syntax error: the number of a line and what is wrong with it. -/
structure SyntaxError where
  line : Nat
  cause : Cause
  deriving DecidableEq, Repr

/-- The message of a syntax error. -/
def SyntaxError.message (e : SyntaxError) : Text :=
  text "syntax error: line " ++ Text.ofNat e.line ++ text ": "
    ++ e.cause.message

/-- How assembling fails. -/
inductive Failure (ε : Type) where
  /-- There is an error to report. -/
  | error (e : ε)
  /-- The program reaches outside one of its tables. -/
  | crash
  /-- A list has to have more entries than can be counted, and the program goes
  on adding to it until there is no room left. -/
  | exhausted
  deriving DecidableEq, Repr

/-- Restates the error of a failure; the other failures stay what they are. -/
def Failure.map {ε δ : Type} (f : ε → δ) : Failure ε → Failure δ
  | .error e => .error (f e)
  | .crash => .crash
  | .exhausted => .exhausted

end Assembly
end Nullness
