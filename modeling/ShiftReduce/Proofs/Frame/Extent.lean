import ShiftReduce.Frame
import ShiftReduce.Proofs.Stack.Storage

/-!
Reads within bounds. The extent of an element is found by reading heads from the top down; every
position that is read lies on the stack, and nothing is subtracted that is not there. The arguments
of a reduction are read in bounds as well, once its elements are known to be on the stack.
-/

namespace ShiftReduce

variable {S V : Type}

def extentRead? (stack : Stack (Frame S V)) : Nat → Nat → Option (Option Extent)
  | _, 0 => some none
  | 0, position + 1 => do
    let head ← stack.stored? position
    if head.folded ≤ position then some (some ⟨position - head.folded, position⟩) else some none
  | n + 1, position + 1 => do
    let head ← stack.stored? position
    if head.folded ≤ position then extentRead? stack n (position - head.folded) else some none

section Extents

variable {stack : Stack (Frame S V)} {n m depth : Nat} {extent : Extent}

theorem extentBelow?_empty (stack : Stack (Frame S V)) (n : Nat) :
    extentBelow? stack 0 n = none := by
  cases n <;> simp [extentBelow?]

theorem extentBelow?_top {position : Nat} {head : Frame S V} (h : stack.nth? position = some head) :
    extentBelow? stack (position + 1) 0 =
      if head.folded ≤ position then some ⟨position - head.folded, position⟩ else none := by
  simp only [extentBelow?, Nat.add_sub_cancel, h, Nat.lt_succ_iff]
  rfl

theorem extentBelow?_next {position : Nat} {head : Frame S V}
    (h : stack.nth? position = some head) :
    extentBelow? stack (position + 1) (n + 1) =
      if head.folded ≤ position then extentBelow? stack (position - head.folded) n else none := by
  simp only [extentBelow?, Nat.add_sub_cancel, h, Nat.lt_succ_iff]
  rfl

theorem extentRead?_eq (hbased : stack.Based) (hdepth : depth ≤ stack.depth) :
    extentRead? stack n depth = some (extentBelow? stack depth n) := by
  induction n generalizing depth with
  | zero =>
    cases depth with
    | zero => rw [extentBelow?_empty, extentRead?]
    | succ position =>
      obtain ⟨head, -, hhead⟩ := Stack.exists_nth? hdepth
      rw [extentBelow?_top hhead, extentRead?, Stack.stored?_eq hbased, hhead]
      exact (apply_ite some _ _ _).symm
  | succ n ih =>
    cases depth with
    | zero => rw [extentBelow?_empty, extentRead?]
    | succ position =>
      obtain ⟨head, -, hhead⟩ := Stack.exists_nth? hdepth
      have hrest : position - head.folded ≤ stack.depth := by omega
      rw [extentBelow?_next hhead, extentRead?, Stack.stored?_eq hbased, hhead, apply_ite some,
        ← ih hrest]
      rfl

structure Legible (stack : Stack (Frame S V)) : Prop extends stack.InRange where
  extents : ∀ n, extentRead? stack n stack.depth = some (extentBelow? stack stack.depth n)

theorem Stack.Based.legible (h : stack.Based) : Legible stack :=
  ⟨h.inRange, fun _ => extentRead?_eq h (Nat.le_refl _)⟩

theorem extentBelow?_le (h : extentBelow? stack depth n = some extent)
    (hdepth : depth ≤ stack.depth) : extent.start ≤ extent.stop ∧ extent.stop < depth := by
  induction n generalizing depth with
  | zero =>
    cases depth with
    | zero => cases (extentBelow?_empty stack 0).symm.trans h
    | succ position =>
      obtain ⟨head, -, hhead⟩ := Stack.exists_nth? hdepth
      rw [extentBelow?_top hhead] at h
      split at h <;> cases h
      exact ⟨Nat.sub_le _ _, Nat.lt_succ_self _⟩
  | succ n ih =>
    cases depth with
    | zero => cases (extentBelow?_empty stack (n + 1)).symm.trans h
    | succ position =>
      obtain ⟨head, -, hhead⟩ := Stack.exists_nth? hdepth
      rw [extentBelow?_next hhead] at h
      split at h
      · have hrest := ih h (by omega)
        omega
      · cases h

theorem extentBelow?_isSome_of_le (h : (extentBelow? stack depth n).isSome = true) (hm : m ≤ n)
    (hdepth : depth ≤ stack.depth) : (extentBelow? stack depth m).isSome = true := by
  induction m generalizing depth n with
  | zero =>
    cases depth with
    | zero => rwa [extentBelow?_empty] at h ⊢
    | succ position =>
      obtain ⟨head, -, hhead⟩ := Stack.exists_nth? hdepth
      cases n with
      | zero => exact h
      | succ n =>
        rw [extentBelow?_next hhead] at h
        rw [extentBelow?_top hhead]
        split at h
        next hfolded => rw [if_pos hfolded, Option.isSome_some]
        next => cases h
  | succ m ih =>
    obtain ⟨n, rfl⟩ := Nat.exists_eq_add_one.mpr (Nat.zero_lt_of_lt hm)
    cases depth with
    | zero => rwa [extentBelow?_empty] at h ⊢
    | succ position =>
      obtain ⟨head, -, hhead⟩ := Stack.exists_nth? hdepth
      rw [extentBelow?_next hhead] at h ⊢
      split at h
      next hfolded =>
        rw [if_pos hfolded]
        exact ih h (Nat.le_of_succ_le_succ hm) (by omega)
      next => cases h

end Extents

namespace Args

variable {args : Args S V} {i : Nat}

/-- Every argument is on the stack, with all that it has folded, and can be read there. -/
structure Readable (args : Args S V) : Prop where
  based : args.stack.Based
  there : ∀ i, i < args.size → ∃ extent, args.extent? i = some extent ∧
    extent.start ≤ extent.stop ∧ extent.stop < args.stack.depth

theorem readable_of_isSome {stack : Stack (Frame S V)} {size : Nat} (hbased : stack.Based)
    (h : 0 < size → (extentBelow? stack stack.depth (size - 1)).isSome = true) :
    Readable ⟨stack, size⟩ := by
  refine ⟨hbased, fun i hi => ?_⟩
  have hsome : (extentBelow? stack stack.depth (size - 1 - i)).isSome = true :=
    extentBelow?_isSome_of_le (h (Nat.zero_lt_of_lt hi)) (Nat.sub_le _ _) (Nat.le_refl _)
  obtain ⟨extent, hextent⟩ := Option.isSome_iff_exists.mp hsome
  exact ⟨extent, (if_pos hi).trans hextent, extentBelow?_le hextent (Nat.le_refl _)⟩

end Args

end ShiftReduce
