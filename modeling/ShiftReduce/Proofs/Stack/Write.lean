import ShiftReduce.Stack.Basic

/-!
What each write to a stack does to its view, and when it is refused. `Became s fs t` says everything
about a write that went through.
-/

namespace ShiftReduce.Stack

variable {α : Type}

structure Became (s : Stack α) (frames : List α) (t : Stack α) : Prop where
  frames_eq : t.frames = frames
  base_eq : t.base = s.base
  capacity_eq : t.capacity = s.capacity

theorem Became.trans {s t u : Stack α} {fs gs : List α} (h : Became s fs t) (k : Became t gs u) :
    Became s gs u :=
  ⟨k.frames_eq, k.base_eq.trans h.base_eq, k.capacity_eq.trans h.capacity_eq⟩

def HasRoom (capacity : Option Nat) (depth : Nat) : Prop := ∀ n, capacity = some n → depth < n

theorem HasRoom.of_unbounded {capacity : Option Nat} (h : capacity = none) (depth : Nat) :
    HasRoom capacity depth := by
  rw [h]
  exact nofun

theorem push_of_room {a : α} {s : Stack α} (h : HasRoom s.capacity s.depth) :
    ∃ t, s.push a = .ok t ∧ Became s (a :: s.frames) t := by
  refine ⟨{ s with pending := s.pending.put a }, ?_, rfl, rfl, rfl⟩
  unfold push
  split
  next n hn => rw [if_neg (Nat.not_le.mpr (h n hn))]
  next => rfl

theorem push_of_full {a : α} {s : Stack α} {n : Nat} (hn : s.capacity = some n)
    (h : n ≤ s.depth) : s.push a = .error (.overflow n) := by
  simp [push, hn, h]

theorem hasRoom_or_full (capacity : Option Nat) (depth : Nat) :
    HasRoom capacity depth ∨ ∃ n, capacity = some n ∧ n ≤ depth := by
  cases capacity with
  | none => exact .inl nofun
  | some n =>
    rcases Nat.lt_or_ge depth n with h | h
    · refine .inl fun m hm => ?_
      cases hm
      exact h
    · exact .inr ⟨n, rfl, h⟩

theorem pop_of_le {n : Nat} {s : Stack α} (h : n ≤ s.depth) :
    ∃ t, s.pop n = .ok t ∧ Became s (s.frames.drop n) t := by
  refine ⟨_, if_neg (Nat.not_lt.mpr h), ?_, rfl, rfl⟩
  exact frames_of_pop (if_neg (Nat.not_lt.mpr h))

theorem pop_of_lt {n : Nat} {s : Stack α} (h : s.depth < n) :
    s.pop n = .error (.underflow n s.depth) := if_pos h

theorem take_lift (n : Nat) (s : Stack α) :
    (s.lift n).pending.items.take n = s.frames.take n := by
  rw [lift, missing, frames, s.pending.size_eq]
  simp [List.take_append, List.take_take]

theorem lift_pending {s : Stack α} (as : List α) {fs : List α} (h : s.frames = as ++ fs) :
    ∃ rest, (s.lift as.length).pending.items = as ++ rest ∧
      rest ++ (s.lift as.length).kept.items = fs := by
  have htake : (s.lift as.length).pending.items.take as.length = as := by
    rw [take_lift, h, List.take_left]
  have hsplit := List.take_append_drop as.length (s.lift as.length).pending.items
  rw [htake] at hsplit
  refine ⟨_, hsplit.symm, ?_⟩
  have hframes := frames_lift as.length s
  rw [frames, ← hsplit, h, List.append_assoc] at hframes
  exact List.append_cancel_left hframes

theorem modifyTop?_of_cons {f : α → α} {a : α} {fs : List α} {s : Stack α}
    (h : s.frames = a :: fs) :
    ∃ t, s.modifyTop? f = some t ∧ Became s (f a :: fs) t := by
  obtain ⟨rest, hpending, hrest⟩ := lift_pending [a] h
  have hpending : (s.lift 1).pending.items = a :: rest := hpending
  have hrest : rest ++ (s.lift 1).kept.items = fs := hrest
  simp only [modifyTop?, hpending]
  refine ⟨_, rfl, ?_, rfl, rfl⟩
  simp [frames, hpending, hrest]

theorem modifyTop?_of_nil {f : α → α} {s : Stack α} (h : s.frames = []) :
    s.modifyTop? f = none := by
  have hpending : (s.lift 1).pending.items = [] := by
    rw [← frames_lift 1, frames] at h
    exact (List.append_eq_nil_iff.mp h).1
  simp only [modifyTop?, hpending]

theorem swap_of_cons {a b : α} {fs : List α} {s : Stack α} (h : s.frames = a :: b :: fs) :
    ∃ t, s.swap = .ok t ∧ Became s (b :: a :: fs) t := by
  obtain ⟨rest, hpending, hrest⟩ := lift_pending [a, b] h
  have hpending : (s.lift 2).pending.items = a :: b :: rest := hpending
  have hrest : rest ++ (s.lift 2).kept.items = fs := hrest
  simp only [swap, hpending]
  refine ⟨_, rfl, ?_, rfl, rfl⟩
  simp [frames, hpending, hrest]

theorem swap_of_lt {s : Stack α} (h : s.depth < 2) :
    s.swap = .error (.underflow 2 s.depth) := by
  have hlength : (s.lift 2).pending.items.length < 2 := by
    have := length_frames s
    rw [← frames_lift 2, frames, List.length_append] at this
    omega
  unfold swap
  dsimp only
  split
  next hitems =>
    rw [hitems, List.length_cons, List.length_cons] at hlength
    omega
  next => rfl

end ShiftReduce.Stack
