import ShiftReduce.Proofs.Stack.TwoLists

namespace ShiftReduce.Stack

variable {α : Type} {s t : Stack α} {n i : Nat}

/-- What the stack keeps of its base is the bottom of it, as it was. -/
def Based (s : Stack α) : Prop := s.kept.items <:+ s.base.items

namespace Based

theorem rollback (s : Stack α) : Based s.rollback := List.suffix_rfl

theorem commit (s : Stack α) : Based s.commit := List.suffix_rfl

theorem of_kept (h : Based s) (hbase : t.base = s.base) (hkept : t.kept.items <:+ s.kept.items) :
    Based t := by
  rw [Based, hbase]
  exact hkept.trans h

theorem take_eq (h : Based s) : s.base.items.reverse.take s.kept.size = s.kept.items.reverse := by
  have hprefix := List.prefix_iff_eq_take.mp (List.reverse_prefix.mpr h)
  rw [List.length_reverse, ← s.kept.size_eq] at hprefix
  exact hprefix.symm

theorem size_le (h : Based s) : s.kept.size ≤ s.base.size := by
  rw [s.kept.size_eq, s.base.size_eq]
  exact h.length_le

end Based

def stored? (i : Nat) (s : Stack α) : Option α :=
  if i < s.kept.size then s.base.items.reverse[i]? else s.pending.items.reverse[i - s.kept.size]?

def storedTop? (s : Stack α) : Option (Option α) :=
  match s.pending.items, s.kept.size with
  | a :: _, _ => some (some a)
  | [], 0 => some none
  | [], n + 1 => s.base.items.reverse[n]?.map some

def storedFrames? (s : Stack α) : Option (List α) :=
  let cut := s.depth - s.pendingDepth
  if cut ≤ s.base.size then some (s.base.items.reverse.take cut ++ s.pending.items.reverse)
  else none

theorem stored?_eq (h : s.Based) (i : Nat) : s.stored? i = s.nth? i := by
  have hkept : s.kept.items.reverse.length = s.kept.size := by
    rw [List.length_reverse, s.kept.size_eq]
  rw [stored?, nth?_eq, frames, List.reverse_append, List.getElem?_append, hkept]
  split
  next hi => rw [← h.take_eq, List.getElem?_take_of_lt hi]
  next => rfl

theorem exists_nth? (h : i < s.depth) : ∃ a ∈ s.frames, s.nth? i = some a := by
  rw [← length_frames, ← List.length_reverse] at h
  refine ⟨s.frames.reverse[i], List.mem_reverse.mp (List.getElem_mem h), ?_⟩
  rw [nth?_eq, List.getElem?_eq_getElem h]

theorem storedTop?_eq (h : s.Based) : s.storedTop? = some s.top? := by
  rw [storedTop?, top?_eq]
  split
  next a as hpending => rw [frames, hpending, List.cons_append, List.head?_cons]
  next hpending hkept =>
    have hnil : s.kept.items = [] := List.length_eq_zero_iff.mp (s.kept.size_eq.symm.trans hkept)
    rw [frames, hpending, hnil, List.append_nil, List.head?_nil]
  next n hpending hkept =>
    obtain ⟨a, as, hitems⟩ := List.exists_cons_of_length_eq_add_one
      (s.kept.size_eq.symm.trans hkept)
    have hframes : s.frames = a :: as := by rw [frames, hpending, hitems, List.nil_append]
    have hlength : as.reverse.length = n := by
      rw [s.kept.size_eq, hitems, List.length_cons] at hkept
      rw [List.length_reverse, Nat.succ.inj hkept]
    have hread : s.base.items.reverse[n]? = s.frames.reverse[n]? := by
      rw [← nth?_eq, ← stored?_eq h, stored?, if_pos (hkept ▸ Nat.lt_succ_self n)]
    rw [hread, hframes, List.reverse_cons, ← hlength, List.getElem?_concat_length]
    rfl

theorem storedFrames?_eq (h : s.Based) : s.storedFrames? = some s.frames.reverse := by
  have hcut : s.depth - s.pendingDepth = s.kept.size := Nat.add_sub_cancel_left ..
  rw [storedFrames?, hcut, if_pos h.size_le, h.take_eq, frames, List.reverse_append]

structure InRange (s : Stack α) : Prop where
  nth : ∀ i, i < s.depth → ∃ a, s.stored? i = some a ∧ s.nth? i = some a
  top : s.storedTop? = some s.top?
  frames : s.storedFrames? = some s.frames.reverse

theorem Based.inRange (h : s.Based) : s.InRange := by
  refine ⟨fun i hi => ?_, storedTop?_eq h, storedFrames?_eq h⟩
  obtain ⟨a, -, ha⟩ := exists_nth? hi
  exact ⟨a, (stored?_eq h i).trans ha, ha⟩

structure Exact (s : Stack α) : Prop where
  cut : s.pendingDepth ≤ s.depth
  pop : ∀ n t, s.pop n = .ok t → t.depth + n = s.depth ∧
    t.kept.size + (n - s.pending.size) = s.kept.size
  lift : ∀ n, n ≤ s.depth → n ≤ (s.lift n).pending.size ∧
    (s.lift n).kept.size + s.missing n = s.kept.size

theorem exact (s : Stack α) : s.Exact := by
  constructor
  · exact Nat.le_add_right ..
  · intro n t hpop
    rw [Stack.pop] at hpop
    split at hpop
    · cases hpop
    next hdepth =>
      cases hpop
      simp only [depth, Pile.drop] at hdepth ⊢
      omega
  · intro n hn
    simp only [depth] at hn
    simp only [Stack.lift, missing, Pile.onto, Pile.take, Pile.drop]
    omega

end ShiftReduce.Stack
