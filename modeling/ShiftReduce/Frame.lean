import ShiftReduce.Stack.Basic

/-!
Frames of a parse stack and the arguments of a reduction. An accumulator frame sits on top of the
frames it has folded and counts them; together they are one *element* of the parse, and so is a
plain frame, which has folded nothing. Arguments are read in place, by position on the stack.
-/

namespace ShiftReduce

structure Frame (S V : Type) where
  state : S
  value : V
  /-- How many frames right below belong to this one. -/
  folded : Nat

/-- The positions, counted from the bottom, of the frames folded under one element; the head of the
element is at `stop`. -/
structure Extent where
  start : Nat
  stop : Nat
  deriving DecidableEq

def Extent.length (e : Extent) : Nat := e.stop - e.start

variable {S V : Type}

/-- Among the frames at positions below `depth`, the extent of the element that lies `n` elements
below the most recent one, if everything that it and those above it have folded is there. -/
def extentBelow? (stack : Stack (Frame S V)) (depth : Nat) : Nat → Option Extent
  | 0 => do
    let head ← stack.nth? (depth - 1)
    if head.folded < depth then some ⟨depth - 1 - head.folded, depth - 1⟩ else none
  | n + 1 => do
    let head ← stack.nth? (depth - 1)
    if head.folded < depth then extentBelow? stack (depth - 1 - head.folded) n else none

/-- The arguments of a reduction by a rule with `size` symbols: the `size` most recent elements,
still on the stack, numbered from the left of the rule. -/
structure Args (S V : Type) where
  stack : Stack (Frame S V)
  size : Nat

namespace Args

def extent? (args : Args S V) (i : Nat) : Option Extent :=
  if i < args.size then extentBelow? args.stack args.stack.depth (args.size - 1 - i) else none

def get? (args : Args S V) (i : Nat) : Option V := do
  let extent ← args.extent? i
  let frame ← args.stack.nth? extent.stop
  some frame.value

def sequence? (args : Args S V) (i : Nat) : Option (List V) := do
  let extent ← args.extent? i
  let above := args.stack.frames.drop (args.stack.depth - extent.stop)
  some ((above.take extent.length).reverse.map Frame.value)

def optional? (args : Args S V) (i : Nat) : Option (Option V) := do
  let extent ← args.extent? i
  if extent.start < extent.stop then
    let frame ← args.stack.nth? extent.start
    some (some frame.value)
  else some none

end Args

structure Cursor (S V : Type) where
  stack : Stack (Frame S V)
  extent : Extent

namespace Cursor

def length (c : Cursor S V) : Nat := c.extent.length

def next (c : Cursor S V) : Option V × Cursor S V :=
  if c.extent.start < c.extent.stop then
    ((c.stack.nth? c.extent.start).map Frame.value, { c with extent.start := c.extent.start + 1 })
  else (none, c)

def nextBack (c : Cursor S V) : Option V × Cursor S V :=
  if c.extent.start < c.extent.stop then
    ((c.stack.nth? (c.extent.stop - 1)).map Frame.value,
      { c with extent.stop := c.extent.stop - 1 })
  else (none, c)

end Cursor

def Args.cursor? (args : Args S V) (i : Nat) : Option (Cursor S V) :=
  (args.extent? i).map fun extent => ⟨args.stack, extent⟩

end ShiftReduce
