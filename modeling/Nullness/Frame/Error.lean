import Nullness.Text.Basic

/-!
# Errors of frame operations

Each constructor is one way in which a frame operation is refused, with the
numbers its message shows.
-/

namespace Nullness
namespace Frame

/-- Why a frame operation is refused. -/
inductive Error where
  /-- A value is taken from an empty stack. -/
  | stackUnderflow
  /-- A pushed value does not fit the declared stack bound. -/
  | stackOverflow (maxStack : Nat)
  /-- A pushed value takes neither one nor two slots. -/
  | pushSize (size : UInt8)
  /-- A popped value has another size than wanted. -/
  | popSize (found wanted : UInt8)
  /-- A local variable that does not exist is read. -/
  | readRange (index : Int64) (maxLocals : Nat)
  /-- A value is stored beyond the local variables. -/
  | storeRange (index : Int64) (size : UInt8) (maxLocals : Nat)
  /-- An unwritten or unusable local variable is read. -/
  | unusableLocal (index : Int64)
  /-- A local variable holds a value of another size than wanted. -/
  | localSize (index : Int64) (found wanted : UInt8)
  /-- Merged frames have different numbers of local variables. -/
  | mergeLocals (left right : Nat)
  /-- Merged frames have different numbers of stack entries. -/
  | mergeHeight (left right : Nat)
  /-- Two merged stack entries have different sizes; entries are counted from
  the bottom of the stack. -/
  | mergeSize (entry : Nat) (left right : UInt8)
  deriving DecidableEq, Repr

/-- A slot count in a message. -/
private def sizeText (size : UInt8) : Text := Text.ofNat size.toNat

/-- An index in a message. -/
private def indexText (index : Int64) : Text := Text.ofInt index.toInt

/-- The message of a refused frame operation. -/
def Error.message : Error → Text
  | .stackUnderflow => text "operand stack underflow"
  | .stackOverflow maxStack =>
    text "operand stack overflow: max stack " ++ Text.ofNat maxStack
  | .pushSize size =>
    text "value size mismatch: cannot push a size-" ++ sizeText size
      ++ text " value"
  | .popSize found wanted =>
    text "value size mismatch: popped a size-" ++ sizeText found
      ++ text " value, want size " ++ sizeText wanted
  | .readRange index maxLocals =>
    text "local variable index out of range: " ++ indexText index
      ++ text " (max locals " ++ Text.ofNat maxLocals ++ text ")"
  | .storeRange index size maxLocals =>
    text "local variable index out of range: " ++ indexText index
      ++ text " (size " ++ sizeText size
      ++ text ", max locals " ++ Text.ofNat maxLocals ++ text ")"
  | .unusableLocal index =>
    text "read of an unset or unusable local variable: local "
      ++ indexText index
  | .localSize index found wanted =>
    text "value size mismatch: local " ++ indexText index
      ++ text " holds a size-" ++ sizeText found
      ++ text " value, want size " ++ sizeText wanted
  | .mergeLocals left right =>
    text "operand stack height mismatch: " ++ Text.ofNat left
      ++ text " locals vs " ++ Text.ofNat right ++ text " locals"
  | .mergeHeight left right =>
    text "operand stack height mismatch: " ++ Text.ofNat left
      ++ text " vs " ++ Text.ofNat right ++ text " entries"
  | .mergeSize entry left right =>
    text "value size mismatch: stack entry " ++ Text.ofNat entry
      ++ text " has sizes " ++ sizeText left
      ++ text " and " ++ sizeText right

end Frame
end Nullness
