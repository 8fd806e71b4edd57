import ShiftReduce.Stack.Op
import ShiftReduce.Proofs.Stack.Write

namespace ShiftReduce.Stack

variable {α τ : Type}

/-- What a rollback would bring back and what is visible, each with the most recent frame first. -/
structure TwoLists (α : Type) where
  base : List α
  view : List α
  capacity : Option Nat

structure Glance (α : Type) where
  visible : List α
  depth : Nat
  isEmpty : Bool

def glance (s : Stack α) : Glance α := ⟨s.frames.reverse, s.depth, s.isEmpty⟩

namespace TwoLists

def empty (capacity : Option Nat) : TwoLists α := ⟨[], [], capacity⟩

def glance (m : TwoLists α) : Glance α := ⟨m.view.reverse, m.view.length, m.view.isEmpty⟩

def settle (m : TwoLists α) : Except StackError (List α) → Answer α × TwoLists α
  | .ok view => (.done, { m with view })
  | .error e => (.refused e, m)

def push (a : α) (m : TwoLists α) : Except StackError (List α) :=
  match m.capacity with
  | some n => if n ≤ m.view.length then .error (.overflow n) else .ok (a :: m.view)
  | none => .ok (a :: m.view)

def pop (n : Nat) (m : TwoLists α) : Except StackError (List α) :=
  if m.view.length < n then .error (.underflow n m.view.length) else .ok (m.view.drop n)

def swap (m : TwoLists α) : Except StackError (List α) :=
  match m.view with
  | a :: b :: rest => .ok (b :: a :: rest)
  | _ => .error (.underflow 2 m.view.length)

def replaceTop (a : α) (m : TwoLists α) : List α :=
  match m.view with
  | _ :: rest => a :: rest
  | [] => []

def read (i : Nat) (m : TwoLists α) : Answer α :=
  if i < m.view.length then .frame m.view.reverse[i]? else .outOfRange

def perform (m : TwoLists α) : Op α → Answer α × TwoLists α
  | .rollback => (.done, { m with view := m.base })
  | .commit => (.done, { m with base := m.view })
  | .clear => (.done, { m with base := [], view := [] })
  | .push a => m.settle (m.push a)
  | .pop n => m.settle (m.pop n)
  | .swap => m.settle m.swap
  | .replaceTop a => (.frame m.view.head?, { m with view := m.replaceTop a })
  | .copy => (.done, m)
  | .top => (.frame m.view.head?, m)
  | .nth i => (m.read i, m)
  | .fromTop size index =>
    if index < size ∧ size ≤ m.view.length then (m.read (m.view.length - (size - index)), m)
    else (.outOfRange, m)
  | .capacity => (.bound m.capacity, m)

end TwoLists

def after (perform : τ → Op α → Answer α × τ) (s : τ) (ops : List (Op α)) : τ :=
  ops.foldl (fun s op => (perform s op).2) s

def transcript (perform : τ → Op α → Answer α × τ) (glance : τ → Glance α) (s : τ) :
    List (Op α) → List (Answer α × Glance α)
  | [] => []
  | op :: ops =>
    let (answer, next) := perform s op
    (answer, glance next) :: transcript perform glance next ops

structure Refines (s : Stack α) (m : TwoLists α) : Prop where
  base_eq : s.base.items = m.base
  view_eq : s.frames = m.view
  capacity_eq : s.capacity = m.capacity
  kept_suffix : s.kept.items <:+ s.base.items

namespace Refines

variable {s : Stack α} {m : TwoLists α}

theorem empty (capacity : Option Nat) : Refines (.empty capacity : Stack α) (.empty capacity) :=
  ⟨rfl, rfl, rfl, List.suffix_refl _⟩

theorem depth_eq (h : Refines s m) : s.depth = m.view.length := by
  rw [← length_frames, h.view_eq]

theorem glance_eq (h : Refines s m) : s.glance = m.glance := by
  have hempty : s.isEmpty = m.view.isEmpty := by
    rw [isEmpty, h.depth_eq]
    cases m.view <;> rfl
  rw [glance, TwoLists.glance, h.view_eq, h.depth_eq, hempty]

theorem became {t : Stack α} {view : List α} (h : Refines s m) (ht : Became s view t)
    (hkept : t.kept.items <:+ s.kept.items) : Refines t { m with view } :=
  ⟨ht.base_eq ▸ h.base_eq, ht.frames_eq, ht.capacity_eq.trans h.capacity_eq,
    ht.base_eq ▸ hkept.trans h.kept_suffix⟩

end Refines

theorem kept_of_push {a : α} {s t : Stack α} (h : s.push a = .ok t) : t.kept = s.kept := by
  unfold push at h
  split at h
  · split at h
    · cases h
    · cases h
      rfl
  · cases h
    rfl

theorem kept_of_pop {n : Nat} {s t : Stack α} (h : s.pop n = .ok t) :
    t.kept.items <:+ s.kept.items := by
  unfold pop at h
  split at h
  · cases h
  · cases h
    exact List.drop_suffix _ _

theorem kept_of_swap {s t : Stack α} (h : s.swap = .ok t) : t.kept.items <:+ s.kept.items := by
  unfold swap at h
  dsimp only at h
  split at h
  · cases h
    exact List.drop_suffix _ _
  · cases h

theorem kept_of_modifyTop? {f : α → α} {s t : Stack α} (h : s.modifyTop? f = some t) :
    t.kept.items <:+ s.kept.items := by
  unfold modifyTop? at h
  dsimp only at h
  split at h
  · cases h
    exact List.drop_suffix _ _
  · cases h

inductive Agree (s : Stack α) :
    Except StackError (Stack α) → Except StackError (List α) → Prop
  | done {t : Stack α} {view : List α} : Became s view t → t.kept.items <:+ s.kept.items →
      Agree s (.ok t) (.ok view)
  | refused {e : StackError} : Agree s (.error e) (.error e)

section Writes

variable {s : Stack α} {m : TwoLists α}

theorem agree_push (h : Refines s m) (a : α) : Agree s (s.push a) (m.push a) := by
  rw [TwoLists.push, ← h.capacity_eq, ← h.depth_eq, ← h.view_eq]
  rcases hasRoom_or_full s.capacity s.depth with hroom | ⟨n, hn, hfull⟩
  · obtain ⟨t, hpush, ht⟩ := push_of_room (a := a) hroom
    have hkept : t.kept.items <:+ s.kept.items := kept_of_push hpush ▸ List.suffix_rfl
    rw [hpush]
    split
    next n hn =>
      rw [if_neg (Nat.not_le.mpr (hroom n hn))]
      exact .done ht hkept
    next => exact .done ht hkept
  · rw [push_of_full hn hfull]
    simp only [hn, if_pos hfull]
    exact .refused

theorem agree_pop (h : Refines s m) (n : Nat) : Agree s (s.pop n) (m.pop n) := by
  rw [TwoLists.pop, ← h.depth_eq, ← h.view_eq]
  rcases Nat.lt_or_ge s.depth n with hlt | hle
  · rw [pop_of_lt hlt, if_pos hlt]
    exact .refused
  · obtain ⟨t, hpop, ht⟩ := pop_of_le hle
    rw [hpop, if_neg (Nat.not_lt.mpr hle)]
    exact .done ht (kept_of_pop hpop)

theorem agree_swap (h : Refines s m) : Agree s s.swap m.swap := by
  rw [TwoLists.swap, ← h.depth_eq, ← h.view_eq]
  split
  next a b rest hframes =>
    obtain ⟨t, hswap, ht⟩ := swap_of_cons hframes
    rw [hswap]
    exact .done ht (kept_of_swap hswap)
  next hframes =>
    have hlt : s.depth < 2 := by
      rw [← length_frames]
      match hs : s.frames with
      | [] => simp
      | [_] => simp
      | a :: b :: rest => exact absurd hs (hframes a b rest)
    rw [swap_of_lt hlt]
    exact .refused

theorem Agree.settle {x : Except StackError (Stack α)} {y : Except StackError (List α)}
    (hxy : Agree s x y) (h : Refines s m) :
    (s.settle x).1 = (m.settle y).1 ∧ Refines (s.settle x).2 (m.settle y).2 := by
  cases hxy with
  | done ht hkept => exact ⟨rfl, h.became ht hkept⟩
  | refused => exact ⟨rfl, h⟩

theorem refines_replaceTop (h : Refines s m) (a : α) :
    Refines ((s.modifyTop? fun _ => a).getD s) { m with view := m.replaceTop a } := by
  rw [TwoLists.replaceTop, ← h.view_eq]
  split
  next b rest hframes =>
    obtain ⟨t, hmodify, ht⟩ := modifyTop?_of_cons (f := fun _ => a) hframes
    rw [hmodify]
    exact h.became ht (kept_of_modifyTop? hmodify)
  next hframes =>
    rw [modifyTop?_of_nil hframes]
    exact h.became ⟨hframes, rfl, rfl⟩ List.suffix_rfl

end Writes

section Reads

variable {s : Stack α} {m : TwoLists α}

theorem ofRead_nth? (h : Refines s m) (i : Nat) : .ofRead (s.nth? i) = m.read i := by
  rw [TwoLists.read, nth?_eq, h.view_eq]
  split
  next hi =>
    have hi : i < m.view.reverse.length := by rwa [List.length_reverse]
    rw [List.getElem?_eq_getElem hi]
    rfl
  next hi =>
    rw [List.getElem?_eq_none (by simpa using hi)]
    rfl

theorem ofRead_at? (h : Refines s m) (size index : Nat) :
    (Answer.ofRead (s.at? size index), m) = m.perform (.fromTop size index) := by
  rw [at?, TwoLists.perform, ← h.depth_eq]
  split
  · rw [ofRead_nth? h]
  · rfl

end Reads

theorem perform_refines {s : Stack α} {m : TwoLists α} (h : Refines s m) (op : Op α) :
    (s.perform op).1 = (m.perform op).1 ∧ Refines (s.perform op).2 (m.perform op).2 := by
  cases op with
  | rollback =>
    refine ⟨rfl, h.base_eq, h.base_eq, h.capacity_eq, List.suffix_rfl⟩
  | commit => exact ⟨rfl, h.view_eq, h.view_eq, h.capacity_eq, List.suffix_rfl⟩
  | clear => exact ⟨rfl, rfl, rfl, h.capacity_eq, List.suffix_rfl⟩
  | push a => exact (agree_push h a).settle h
  | pop n => exact (agree_pop h n).settle h
  | swap => exact (agree_swap h).settle h
  | replaceTop a =>
    refine ⟨?_, refines_replaceTop h a⟩
    simp only [perform, TwoLists.perform, top?_eq, h.view_eq]
  | copy => exact ⟨rfl, h⟩
  | top =>
    refine ⟨?_, h⟩
    simp only [perform, TwoLists.perform, top?_eq, h.view_eq]
  | nth i => exact ⟨ofRead_nth? h i, h⟩
  | fromTop size index =>
    rw [← ofRead_at? h]
    exact ⟨rfl, h⟩
  | capacity => exact ⟨congrArg Answer.bound h.capacity_eq, h⟩

theorem after_refines {s : Stack α} {m : TwoLists α} (h : Refines s m) (ops : List (Op α)) :
    Refines (after perform s ops) (after TwoLists.perform m ops) := by
  induction ops generalizing s m with
  | nil => exact h
  | cons op ops ih => exact ih (perform_refines h op).2

theorem transcript_refines {s : Stack α} {m : TwoLists α} (h : Refines s m) (ops : List (Op α)) :
    transcript perform glance s ops = transcript TwoLists.perform TwoLists.glance m ops := by
  induction ops generalizing s m with
  | nil => rfl
  | cons op ops ih =>
    obtain ⟨hanswer, hnext⟩ := perform_refines h op
    simp only [transcript]
    rw [hanswer, hnext.glance_eq, ih hnext]

theorem TwoLists.base_perform (m : TwoLists α) (op : Op α) :
    op = .commit ∨ op = .clear ∨ (m.perform op).2.base = m.base := by
  have hsettle : ∀ x, (m.settle x).2.base = m.base := by
    intro x
    cases x <;> rfl
  cases op with
  | commit => exact .inl rfl
  | clear => exact .inr (.inl rfl)
  | push a => exact .inr (.inr (hsettle _))
  | pop n => exact .inr (.inr (hsettle _))
  | swap => exact .inr (.inr (hsettle _))
  | fromTop size index =>
    simp only [perform]
    split <;> exact .inr (.inr rfl)
  | _ => exact .inr (.inr rfl)

/-- Every history of operations gets the same answers and the same glances from a new stack as from
two empty lists, and leaves it with their base and view. Nothing but a commit and a clear changes
the base. -/
theorem history_eq_twoLists (capacity : Option Nat) (ops : List (Op α)) :
    transcript perform glance (.empty capacity) ops =
        transcript TwoLists.perform TwoLists.glance (.empty capacity) ops ∧
      Refines (after perform (.empty capacity) ops)
        (after TwoLists.perform (.empty capacity) ops) ∧
      ∀ op, op = .commit ∨ op = .clear ∨
        (after perform (.empty capacity) (ops ++ [op])).base.items =
          (after perform (.empty capacity) ops).base.items := by
  have hstart : Refines (.empty capacity : Stack α) (.empty capacity) := .empty capacity
  refine ⟨transcript_refines hstart ops, after_refines hstart ops, ?_⟩
  intro op
  rw [(after_refines hstart _).base_eq, (after_refines hstart _).base_eq]
  simp only [after, List.foldl_append, List.foldl_cons, List.foldl_nil]
  exact TwoLists.base_perform _ op

end ShiftReduce.Stack
