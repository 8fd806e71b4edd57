import ShiftReduce.Proofs.Frame.Element

namespace ShiftReduce

variable {S V : Type}

/-- Each frame has folded no more frames than lie below it. -/
def Grounded : List (Frame S V) → Prop
  | [] => True
  | head :: below => head.folded ≤ below.length ∧ Grounded below

namespace Grounded

variable {a b : Frame S V} {fs : List (Frame S V)}

theorem drop (h : Grounded fs) (n : Nat) : Grounded (fs.drop n) := by
  induction n generalizing fs with
  | zero => exact h
  | succ n ih =>
    cases fs with
    | nil => exact h
    | cons a fs => exact ih h.2

theorem swap (h : Grounded (a :: b :: fs)) (ha : a.folded ≤ fs.length) :
    Grounded (b :: a :: fs) :=
  ⟨Nat.le_succ_of_le h.2.1, ha, h.2.2⟩

theorem fold (h : Grounded (a :: fs)) (ha : a.folded < fs.length) :
    Grounded ({ a with folded := a.folded + 1 } :: fs) :=
  ⟨ha, h.2⟩

theorem exists_flatten : ∀ {fs : List (Frame S V)}, Grounded fs →
    ∃ xs : List (Element S V), fs = flatten xs
  | [], _ => ⟨[], rfl⟩
  | a :: fs, h => by
    obtain ⟨x, hx⟩ := exists_element h.1
    obtain ⟨xs, hxs⟩ := exists_flatten (h.2.drop a.folded)
    refine ⟨x :: xs, ?_⟩
    rw [hx, hxs]
    rfl
termination_by fs => fs.length
decreasing_by
  simp only [List.length_cons, List.length_drop]
  omega

theorem iff_getElem? :
    Grounded fs ↔ ∀ i (frame : Frame S V), fs.reverse[i]? = some frame → frame.folded ≤ i := by
  induction fs with
  | nil => exact ⟨fun _ => nofun, fun _ => trivial⟩
  | cons a fs ih =>
    rw [Grounded, ih]
    constructor
    · rintro ⟨ha, hfs⟩ i frame hi
      rw [List.reverse_cons, List.getElem?_append] at hi
      split at hi
      · exact hfs i frame hi
      next hlt =>
        obtain ⟨hle, rfl⟩ := List.getElem?_eq_some_iff.mp hi
        rw [List.length_reverse] at hlt
        rw [List.getElem_singleton]
        omega
    · intro h
      constructor
      · apply h
        rw [List.reverse_cons, ← List.length_reverse, List.getElem?_concat_length]
      · intro i frame hi
        apply h
        rw [List.reverse_cons, List.getElem?_append_left (List.getElem?_eq_some_iff.mp hi).1]
        exact hi

end Grounded

theorem grounded_iff {stack : Stack (Frame S V)} :
    Grounded stack.frames ↔ ∀ i frame, stack.nth? i = some frame → frame.folded ≤ i := by
  rw [Grounded.iff_getElem?]
  simp only [Stack.nth?_eq]

theorem folded_add_length_le {x : Element S V} {xs : List (Element S V)}
    {below fs : List (Frame S V)} {a : Frame S V} (h : a :: fs = flatten (x :: xs) ++ below) :
    a.folded + xs.length ≤ fs.length := by
  rw [flatten_cons, List.cons_append, List.append_assoc] at h
  obtain ⟨rfl, rfl⟩ := List.cons.inj h
  have hxs := length_le_flatten xs
  simp only [Element.head, List.length_append]
  omega

end ShiftReduce
