import ShiftReduce.Stack.Basic

namespace ShiftReduce.Stack

inductive Op (α : Type) : Type
  | rollback
  | commit
  | clear
  | push (a : α)
  | pop (n : Nat)
  | swap
  | replaceTop (a : α)
  | copy
  | top
  | nth (i : Nat)
  | fromTop (size index : Nat)
  | capacity

inductive Answer (α : Type) : Type
  | done
  | refused (e : StackError)
  | frame (a : Option α)
  | bound (capacity : Option Nat)
  | outOfRange
  deriving DecidableEq

variable {α : Type}

def Answer.ofRead : Option α → Answer α
  | some a => .frame (some a)
  | none => .outOfRange

def settle (s : Stack α) : Except StackError (Stack α) → Answer α × Stack α
  | .ok t => (.done, t)
  | .error e => (.refused e, s)

def perform (s : Stack α) : Op α → Answer α × Stack α
  | .rollback => (.done, s.rollback)
  | .commit => (.done, s.commit)
  | .clear => (.done, s.clear)
  | .push a => s.settle (s.push a)
  | .pop n => s.settle (s.pop n)
  | .swap => s.settle s.swap
  | .replaceTop a => (.frame s.top?, (s.modifyTop? fun _ => a).getD s)
  | .copy => (.done, s)
  | .top => (.frame s.top?, s)
  | .nth i => (.ofRead (s.nth? i), s)
  | .fromTop size index => (.ofRead (s.at? size index), s)
  | .capacity => (.bound s.capacity, s)

end ShiftReduce.Stack
