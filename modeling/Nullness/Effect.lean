import Nullness.Frame.Basic

/-!
# Effects of instructions

What an instruction does to a frame falls into a few shapes: it takes values of
given sizes from the stack and leaves at most one, it rearranges the top of the
stack, or it moves a value between the stack and a local variable.  An effect
describes one such change, with everything decided that does not depend on the
frame; `Effect.run` carries it out.
-/

namespace Nullness

/-- A number of slots at the top of the stack: one entry of one slot, or two
slots, which are one or two entries. -/
inductive Block where
  | one
  | two
  deriving DecidableEq, Repr

/-- A rearrangement of the top of the stack. -/
inductive Shuffle where
  /-- Drops a block. -/
  | drop (top : Block)
  /-- Doubles a block. -/
  | copy (top : Block)
  /-- Copies a block to below the block under it. -/
  | copyUnder (top below : Block)
  /-- Exchanges the two topmost entries. -/
  | swap
  deriving DecidableEq, Repr

/-- What an instruction does to a frame. -/
inductive Effect where
  /-- Takes values of the given sizes, the top first, and then leaves a
  value. -/
  | consume (sizes : List UInt8) (result : Option Value)
  /-- Rearranges the top of the stack. -/
  | shuffle (shuffle : Shuffle)
  /-- Puts the value of a local variable on the stack. -/
  | load (index : Int64) (size : UInt8)
  /-- Moves a value from the stack to a local variable. -/
  | store (index : Int64) (size : UInt8)
  /-- Needs a local variable to hold a value of one slot. -/
  | read (index : Int64)
  /-- Takes a value of one slot and puts it back. -/
  | recast
  deriving DecidableEq, Repr

/-- Takes a block from the stack and returns its entries, the deepest first. -/
def Block.take : Block → Frame.Action (List Value)
  | .one => do
    let v ← Frame.popSized 1
    return [v]
  | .two => do
    let v ← Frame.pop
    if v.size = 2 then return [v]
    else
      let w ← Frame.popSized 1
      return [w, v]

/-- Rearranges the top of the stack. -/
def Shuffle.run : Shuffle → Frame.Action Unit
  | .drop top => do
    let _ ← top.take
  | .copy top => do
    let a ← top.take
    Frame.pushAll (a ++ a)
  | .copyUnder top below => do
    let a ← top.take
    let b ← below.take
    Frame.pushAll (a ++ b ++ a)
  | .swap => do
    let a ← Block.one.take
    let b ← Block.one.take
    Frame.pushAll (a ++ b)

/-- Carries out an effect. -/
def Effect.run : Effect → Frame.Action Unit
  | .consume sizes result => do
    Frame.popSizes sizes
    match result with
    | some v => Frame.push v
    | none => return ()
  | .shuffle s => s.run
  | .load index size => do
    let v ← Frame.loadLocal index size
    Frame.push v
  | .store index size => do
    let v ← Frame.popSized size
    Frame.setLocal index v
  | .read index => do
    let _ ← Frame.loadLocal index 1
  | .recast => do
    let v ← Frame.popSized 1
    Frame.push v

end Nullness
