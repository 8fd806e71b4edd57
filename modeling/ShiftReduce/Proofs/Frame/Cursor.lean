import ShiftReduce.Proofs.Frame.Element
import Mathlib.Data.List.Induction

namespace ShiftReduce

variable {S V : Type}

namespace Cursor

structure Views (c : Cursor S V) (values : List V) : Prop where
  stop_eq : c.extent.stop = c.extent.start + values.length
  value_eq : ∀ i, i < values.length →
    (c.stack.nth? (c.extent.start + i)).map Frame.value = values[i]?

def drain (advance : Cursor S V → Option V × Cursor S V) : Nat → Cursor S V → List (Option V)
  | 0, _ => []
  | n + 1, c => (advance c).1 :: drain advance n (advance c).2

namespace Views

variable {c : Cursor S V} {v : V} {values : List V}

theorem length_eq (h : Views c values) : c.length = values.length := by
  rw [Cursor.length, Extent.length, h.stop_eq]
  omega

theorem next_nil (h : Views c []) : c.next = (none, c) := by
  have hstop := h.stop_eq
  rw [next, if_neg (by simpa using Nat.le_of_eq hstop)]

theorem nextBack_nil (h : Views c []) : c.nextBack = (none, c) := by
  have hstop := h.stop_eq
  rw [nextBack, if_neg (by simpa using Nat.le_of_eq hstop)]

theorem next_cons (h : Views c (v :: values)) :
    ∃ d, c.next = (some v, d) ∧ Views d values := by
  have hstop := h.stop_eq
  rw [List.length_cons] at hstop
  have hfirst := h.value_eq 0 (Nat.zero_lt_succ _)
  rw [Nat.add_zero, List.getElem?_cons_zero] at hfirst
  refine ⟨{ c with extent.start := c.extent.start + 1 }, ?_, ?_, ?_⟩
  · rw [next, if_pos (by omega), hfirst]
  · dsimp only
    omega
  · intro i hi
    have hnext := h.value_eq (i + 1) (Nat.succ_lt_succ hi)
    rw [List.getElem?_cons_succ] at hnext
    rw [← hnext]
    dsimp only
    rw [Nat.add_assoc, Nat.add_comm 1 i]

theorem nextBack_concat (h : Views c (values ++ [v])) :
    ∃ d, c.nextBack = (some v, d) ∧ Views d values := by
  have hstop := h.stop_eq
  rw [List.length_append, List.length_singleton] at hstop
  have hlast := h.value_eq values.length (by simp)
  rw [List.getElem?_concat_length] at hlast
  have hplace : c.extent.stop - 1 = c.extent.start + values.length := by omega
  refine ⟨{ c with extent.stop := c.extent.stop - 1 }, ?_, ?_, ?_⟩
  · rw [nextBack, if_pos (by omega), hplace, hlast]
  · dsimp only
    omega
  · intro i hi
    have hthere := h.value_eq i (by simp; omega)
    rw [List.getElem?_append_left hi] at hthere
    exact hthere

theorem drain_none {advance : Cursor S V → Option V × Cursor S V} (h : advance c = (none, c))
    (n : Nat) : drain advance n c = List.replicate n none := by
  induction n with
  | zero => rfl
  | succ n ih => rw [drain, h, ih, List.replicate_succ]

theorem drain_next (h : Views c values) (n : Nat) :
    drain next (values.length + n) c = values.map some ++ List.replicate n none := by
  induction values generalizing c with
  | nil => simpa using drain_none h.next_nil n
  | cons v values ih =>
    obtain ⟨d, hd, hrest⟩ := h.next_cons
    rw [List.length_cons, Nat.add_right_comm, drain, hd, ih hrest, List.map_cons, List.cons_append]

theorem drain_nextBack (h : Views c values) (n : Nat) :
    drain nextBack (values.length + n) c =
      values.reverse.map some ++ List.replicate n none := by
  induction values using List.reverseRecOn generalizing c with
  | nil => simpa using drain_none h.nextBack_nil n
  | append_singleton values v ih =>
    obtain ⟨d, hd, hrest⟩ := h.nextBack_concat
    rw [List.length_append, List.length_singleton, Nat.add_right_comm, drain, hd, ih hrest]
    simp

end Views

end Cursor

section Arguments

variable {stack : Stack (Frame S V)} {size i : Nat} {xs ys : List (Element S V)} {x : Element S V}
  {below : List (Frame S V)}

theorem views_append (h : stack.frames = flatten xs ++ (x.frames ++ below)) :
    Cursor.Views ⟨stack, ⟨below.length, (x.under ++ below).length⟩⟩
      (x.under.reverse.map Frame.value) := by
  constructor
  · simp [Nat.add_comm]
  · intro j hj
    have hframes : stack.frames.reverse =
        below.reverse ++ (x.under.reverse ++ (flatten xs ++ [x.head]).reverse) := by
      rw [h]
      simp [Element.frames]
    have hj : j < x.under.reverse.length := by simpa using hj
    simp only [Stack.nth?_eq, hframes]
    rw [List.getElem?_append_right (by simp), List.length_reverse, Nat.add_sub_cancel_left,
      List.getElem?_append_left hj, List.getElem?_map]

theorem cursor?_append (h : stack.frames = flatten xs ++ (x.frames ++ below))
    (hi : i + xs.length + 1 = size) :
    ∃ c, Args.cursor? ⟨stack, size⟩ i = some c ∧ c.Views (x.under.reverse.map Frame.value) :=
  ⟨_, by rw [Args.cursor?, extent?_append h hi, Option.map_some], views_append h⟩

theorem cursor?_flatten (h : stack.frames = flatten (xs ++ x :: ys))
    (hi : i + xs.length + 1 = size) :
    ∃ c, Args.cursor? ⟨stack, size⟩ i = some c ∧ c.Views (x.under.reverse.map Frame.value) :=
  cursor?_append (h.trans (flatten_split xs x ys)) hi

end Arguments

end ShiftReduce
