import ShiftReduce.Stack.Pile

/-!
Transactional stacks. A stack keeps a *base*, the frames a `rollback` brings back, beside the frames
that are visible now. Pushes, pops and writes in place change only what is visible; `commit` makes
the visible frames the new base. The visible frames are split where the current transaction began:
`kept` is what is left of the base, `pending` is what the transaction put on top of it.
-/

namespace ShiftReduce

inductive StackError : Type
  | overflow (capacity : Nat)
  | underflow (requested depth : Nat)
  deriving DecidableEq

def StackError.message : StackError → String
  | .overflow capacity => s!"stack overflow (capacity {capacity})"
  | .underflow requested depth => s!"stack underflow (requested {requested}, depth {depth})"

structure Stack (α : Type) where
  base : Pile α
  kept : Pile α
  pending : Pile α
  capacity : Option Nat

namespace Stack

variable {α : Type}

def maxAllocation : Nat := 9223372036854775807

/-- A bounded stack reserves its storage up front, and asking for more than can be allocated is a
crash. -/
def reservable (frameSize : Nat) : Option Nat → Bool
  | some capacity => decide (capacity * frameSize ≤ maxAllocation)
  | none => true

def empty (capacity : Option Nat) : Stack α := ⟨.empty, .empty, .empty, capacity⟩

/-- The visible frames, the most recent first. -/
def frames (s : Stack α) : List α := s.pending.items ++ s.kept.items

def depth (s : Stack α) : Nat := s.pending.size + s.kept.size

def pendingDepth (s : Stack α) : Nat := s.pending.size

def isEmpty (s : Stack α) : Bool := s.depth == 0

@[simp] theorem length_frames (s : Stack α) : s.frames.length = s.depth := by
  simp [frames, depth, s.pending.size_eq, s.kept.size_eq]

@[simp] theorem frames_empty (capacity : Option Nat) :
    (empty capacity : Stack α).frames = [] := rfl

def rollback (s : Stack α) : Stack α := { s with kept := s.base, pending := .empty }

@[simp] theorem frames_rollback (s : Stack α) : s.rollback.frames = s.base.items := rfl

def commit (s : Stack α) : Stack α :=
  let visible := s.pending.onto s.kept
  { s with base := visible, kept := visible, pending := .empty }

@[simp] theorem frames_commit (s : Stack α) : s.commit.frames = s.frames := rfl

@[simp] theorem base_commit (s : Stack α) : s.commit.base.items = s.frames := rfl

def clear (s : Stack α) : Stack α := empty s.capacity

def push (a : α) (s : Stack α) : Except StackError (Stack α) :=
  match s.capacity with
  | some capacity =>
    if capacity ≤ s.depth then .error (.overflow capacity)
    else .ok { s with pending := s.pending.put a }
  | none => .ok { s with pending := s.pending.put a }

theorem frames_of_push {a : α} {s t : Stack α} (h : s.push a = .ok t) :
    t.frames = a :: s.frames := by
  unfold push at h
  split at h
  · split at h
    · cases h
    · cases h
      rfl
  · cases h
    rfl

def pop (n : Nat) (s : Stack α) : Except StackError (Stack α) :=
  if s.depth < n then .error (.underflow n s.depth)
  else .ok { s with kept := s.kept.drop (n - s.pending.size), pending := s.pending.drop n }

theorem frames_of_pop {n : Nat} {s t : Stack α} (h : s.pop n = .ok t) :
    t.frames = s.frames.drop n := by
  unfold pop at h
  split at h
  · cases h
  · cases h
    simp [frames, List.drop_append, s.pending.size_eq]

def below? (n : Nat) (s : Stack α) : Option α :=
  if n < s.pending.size then s.pending.items[n]? else s.kept.items[n - s.pending.size]?

theorem below?_eq (n : Nat) (s : Stack α) : s.below? n = s.frames[n]? := by
  rw [below?, frames, s.pending.size_eq, List.getElem?_append]

def top? (s : Stack α) : Option α := s.below? 0

theorem top?_eq (s : Stack α) : s.top? = s.frames.head? := by
  rw [top?, below?_eq, List.head?_eq_getElem?]

def nth? (i : Nat) (s : Stack α) : Option α :=
  if i < s.depth then s.below? (s.depth - 1 - i) else none

theorem nth?_eq (i : Nat) (s : Stack α) : s.nth? i = s.frames.reverse[i]? := by
  unfold nth?
  split
  next h => rw [below?_eq, List.getElem?_reverse (by rwa [length_frames]), length_frames]
  next h => rw [List.getElem?_eq_none (by simpa using h)]

/-- The frame at place `index` of the `size` most recent ones, counted from the oldest of them. -/
def at? (size index : Nat) (s : Stack α) : Option α :=
  if index < size ∧ size ≤ s.depth then s.nth? (s.depth - (size - index)) else none

def missing (n : Nat) (s : Stack α) : Nat := n - s.pending.size

/-- Moves kept frames over, so that the `n` most recent frames may be written without touching the
base. -/
def lift (n : Nat) (s : Stack α) : Stack α :=
  { s with
    kept := s.kept.drop (s.missing n)
    pending := s.pending.onto (s.kept.take (s.missing n)) }

@[simp] theorem frames_lift (n : Nat) (s : Stack α) : (s.lift n).frames = s.frames := by
  simp [lift, frames]

def modifyTop? (f : α → α) (s : Stack α) : Option (Stack α) :=
  let lifted := s.lift 1
  match lifted.pending.items with
  | a :: _ => some { lifted with pending := (lifted.pending.drop 1).put (f a) }
  | [] => none

def swap (s : Stack α) : Except StackError (Stack α) :=
  let lifted := s.lift 2
  match lifted.pending.items with
  | a :: b :: _ => .ok { lifted with pending := ((lifted.pending.drop 2).put a).put b }
  | _ => .error (.underflow 2 s.depth)

end Stack

end ShiftReduce
