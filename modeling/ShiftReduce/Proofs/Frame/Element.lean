import ShiftReduce.Frame

/-!
Stacks of elements. A frame and those that it has folded make one element; when the frames of a
stack are those of a list of elements, addresses by element are places in that list.
-/

namespace ShiftReduce

variable {S V : Type}

structure Element (S V : Type) where
  state : S
  value : V
  under : List (Frame S V)

namespace Element

def head (x : Element S V) : Frame S V := ⟨x.state, x.value, x.under.length⟩

def frames (x : Element S V) : List (Frame S V) := x.head :: x.under

end Element

def flatten (xs : List (Element S V)) : List (Frame S V) := xs.flatMap Element.frames

@[simp] theorem flatten_nil : flatten ([] : List (Element S V)) = [] := rfl

@[simp] theorem flatten_cons (x : Element S V) (xs : List (Element S V)) :
    flatten (x :: xs) = x.head :: (x.under ++ flatten xs) := rfl

@[simp] theorem flatten_append (xs ys : List (Element S V)) :
    flatten (xs ++ ys) = flatten xs ++ flatten ys := List.flatMap_append

theorem length_le_flatten (xs : List (Element S V)) : xs.length ≤ (flatten xs).length := by
  induction xs with
  | nil => exact Nat.le_refl 0
  | cons x xs ih =>
    simp only [List.length_cons, flatten_cons, List.length_append]
    omega

theorem flatten_injective : ∀ {xs ys : List (Element S V)}, flatten xs = flatten ys → xs = ys
  | [], [], _ => rfl
  | x :: xs, y :: ys, h => by
    rw [flatten_cons, flatten_cons] at h
    obtain ⟨hhead, hrest⟩ := List.cons.inj h
    obtain ⟨hstate, hvalue, hlength⟩ := Frame.mk.inj hhead
    obtain ⟨hunder, hbelow⟩ := List.append_inj hrest hlength
    rw [flatten_injective hbelow]
    obtain ⟨state, value, under⟩ := x
    cases hstate
    cases hvalue
    cases hunder
    rfl

theorem nth?_of_frames {stack : Stack (Frame S V)} {above below : List (Frame S V)}
    {frame : Frame S V} (h : stack.frames = above ++ frame :: below) :
    stack.nth? below.length = some frame := by
  rw [Stack.nth?_eq, h]
  simp

theorem flatten_split (xs : List (Element S V)) (x : Element S V) (ys : List (Element S V)) :
    flatten (xs ++ x :: ys) = flatten xs ++ (x.frames ++ flatten ys) := by
  simp [Element.frames]

theorem extentBelow?_append {stack : Stack (Frame S V)} (above : List (Frame S V))
    (xs : List (Element S V)) (x : Element S V) (below : List (Frame S V))
    (h : stack.frames = above ++ (flatten xs ++ (x.frames ++ below))) :
    extentBelow? stack (flatten xs ++ (x.frames ++ below)).length xs.length =
      some ⟨below.length, (x.under ++ below).length⟩ := by
  induction xs generalizing above with
  | nil =>
    have hhead : stack.nth? (x.under ++ below).length = some x.head := nth?_of_frames h
    have hfolded : x.head.folded < (x.under ++ below).length + 1 := by
      simp only [Element.head, List.length_append]
      omega
    simp only [flatten_nil, List.nil_append, Element.frames, List.cons_append, List.length_cons,
      List.length_nil, extentBelow?, Nat.add_sub_cancel, hhead, Option.bind_eq_bind,
      Option.bind_some, if_pos hfolded]
    simp [Element.head]
  | cons z zs ih =>
    have hframes : flatten (z :: zs) ++ (x.frames ++ below) =
        z.head :: (z.under ++ (flatten zs ++ (x.frames ++ below))) := by
      simp
    rw [hframes] at h ⊢
    have hhead : stack.nth? (z.under ++ (flatten zs ++ (x.frames ++ below))).length = some z.head :=
      nth?_of_frames h
    have hfolded : z.head.folded < (z.under ++ (flatten zs ++ (x.frames ++ below))).length + 1 := by
      simp only [Element.head, List.length_append]
      omega
    have hrest : (z.under ++ (flatten zs ++ (x.frames ++ below))).length - z.head.folded =
        (flatten zs ++ (x.frames ++ below)).length := by
      simp only [Element.head, List.length_append]
      omega
    simp only [List.length_cons, extentBelow?, Nat.add_sub_cancel, hhead, Option.bind_eq_bind,
      Option.bind_some, if_pos hfolded, hrest]
    apply ih (above ++ z.frames)
    rw [h]
    simp [Element.frames]

theorem extentBelow?_flatten {stack : Stack (Frame S V)} (above : List (Frame S V))
    (xs : List (Element S V)) (x : Element S V) (ys : List (Element S V))
    (h : stack.frames = above ++ flatten (xs ++ x :: ys)) :
    extentBelow? stack (flatten (xs ++ x :: ys)).length xs.length =
      some ⟨(flatten ys).length, (x.under ++ flatten ys).length⟩ := by
  rw [flatten_split] at h ⊢
  exact extentBelow?_append above xs x (flatten ys) h

theorem exists_element {head : Frame S V} {fs : List (Frame S V)} (h : head.folded ≤ fs.length) :
    ∃ x : Element S V, head :: fs = x.frames ++ fs.drop head.folded := by
  refine ⟨⟨head.state, head.value, fs.take head.folded⟩, ?_⟩
  simp [Element.frames, Element.head, Nat.min_eq_left h]

theorem exists_elements {stack : Stack (Frame S V)} {above frames : List (Frame S V)} {n : Nat}
    (h : stack.frames = above ++ frames)
    (hsome : (extentBelow? stack frames.length n).isSome = true) :
    ∃ xs below, frames = flatten xs ++ below ∧ xs.length = n + 1 := by
  induction n generalizing above frames with
  | zero =>
    cases frames with
    | nil => simp [extentBelow?] at hsome
    | cons head fs =>
      have hhead : stack.nth? fs.length = some head := nth?_of_frames h
      simp only [extentBelow?, List.length_cons, Nat.add_sub_cancel, hhead, Option.bind_eq_bind,
        Option.bind_some] at hsome
      split at hsome
      next hfolded =>
        obtain ⟨x, hx⟩ := exists_element (Nat.le_of_lt_succ hfolded)
        exact ⟨[x], _, by simpa [flatten] using hx, rfl⟩
      next => cases hsome
  | succ n ih =>
    cases frames with
    | nil => simp [extentBelow?] at hsome
    | cons head fs =>
      have hhead : stack.nth? fs.length = some head := nth?_of_frames h
      simp only [extentBelow?, List.length_cons, Nat.add_sub_cancel, hhead, Option.bind_eq_bind,
        Option.bind_some] at hsome
      split at hsome
      next hfolded =>
        obtain ⟨x, hx⟩ := exists_element (Nat.le_of_lt_succ hfolded)
        rw [hx, ← List.append_assoc] at h
        rw [← List.length_drop] at hsome
        obtain ⟨xs, below, hxs, hlength⟩ := ih h hsome
        refine ⟨x :: xs, below, ?_, by rw [List.length_cons, hlength]⟩
        rw [hx, hxs, ← List.append_assoc]
        rfl
      next => cases hsome

theorem exists_elements_of_size {stack : Stack (Frame S V)} {size : Nat}
    (h : 0 < size → (extentBelow? stack stack.depth (size - 1)).isSome = true) :
    ∃ xs below, stack.frames = flatten xs ++ below ∧ xs.length = size := by
  cases size with
  | zero => exact ⟨[], stack.frames, rfl, rfl⟩
  | succ n =>
    have hsome := h n.succ_pos
    have hall : stack.frames = [] ++ stack.frames := rfl
    rw [Nat.add_sub_cancel, ← Stack.length_frames] at hsome
    exact exists_elements hall hsome

section Arguments

variable {stack other : Stack (Frame S V)} {size i : Nat} {xs ys : List (Element S V)}
  {x : Element S V} {below : List (Frame S V)}

theorem extentBelow?_congr (h : other.frames = stack.frames) (depth n : Nat) :
    extentBelow? other depth n = extentBelow? stack depth n := by
  induction n generalizing depth with
  | zero => simp only [extentBelow?, Stack.nth?_eq, h]
  | succ n ih => simp only [extentBelow?, Stack.nth?_eq, h, ih]

theorem extent?_congr (h : other.frames = stack.frames) (size i : Nat) :
    Args.extent? ⟨other, size⟩ i = Args.extent? ⟨stack, size⟩ i := by
  have hdepth : other.depth = stack.depth := by
    rw [← Stack.length_frames, h, Stack.length_frames]
  simp only [Args.extent?, hdepth, extentBelow?_congr h]

theorem exists_argument {extent : Extent} (h : Args.extent? ⟨stack, size⟩ i = some extent) :
    ∃ (xs : List (Element S V)) (x : Element S V) (below : List (Frame S V)),
      stack.frames = flatten xs ++ (x.frames ++ below) ∧ i + xs.length + 1 = size := by
  rw [Args.extent?] at h
  split at h
  next hi =>
    dsimp only at hi h
    have hall : stack.frames = [] ++ stack.frames := rfl
    rw [← Stack.length_frames] at h
    obtain ⟨zs, below, hframes, hlength⟩ :=
      exists_elements hall (Option.isSome_of_eq_some h)
    rcases List.eq_nil_or_concat zs with rfl | ⟨xs, x, rfl⟩
    · cases hlength
    · rw [List.concat_eq_append, flatten_append, List.append_assoc] at hframes
      rw [List.length_concat] at hlength
      refine ⟨xs, x, below, ?_, by omega⟩
      rw [hframes]
      simp [flatten]
  next => cases h

theorem extent?_append (h : stack.frames = flatten xs ++ (x.frames ++ below))
    (hi : i + xs.length + 1 = size) :
    Args.extent? ⟨stack, size⟩ i = some ⟨below.length, (x.under ++ below).length⟩ := by
  have hplace : size - 1 - i = xs.length := by omega
  have hextent := extentBelow?_append [] xs x below h
  rw [← h, Stack.length_frames] at hextent
  rw [Args.extent?, if_pos (show i < size by omega)]
  simp only [hplace]
  exact hextent

theorem get?_append (h : stack.frames = flatten xs ++ (x.frames ++ below))
    (hi : i + xs.length + 1 = size) : Args.get? ⟨stack, size⟩ i = some x.value := by
  have hhead : stack.nth? (x.under ++ below).length = some x.head := nth?_of_frames h
  rw [Args.get?, extent?_append h hi]
  simp only [Option.bind_eq_bind, Option.bind_some, hhead]
  rfl

theorem sequence?_append (h : stack.frames = flatten xs ++ (x.frames ++ below))
    (hi : i + xs.length + 1 = size) :
    Args.sequence? ⟨stack, size⟩ i = some (x.under.reverse.map Frame.value) := by
  have hframes : stack.frames = (flatten xs ++ [x.head]) ++ (x.under ++ below) := by
    rw [h]
    simp [Element.frames]
  have habove : stack.depth - (x.under ++ below).length = (flatten xs ++ [x.head]).length := by
    rw [← Stack.length_frames, hframes, List.length_append]
    omega
  have hlength : (x.under ++ below).length - below.length = x.under.length := by
    rw [List.length_append]
    omega
  rw [Args.sequence?, extent?_append h hi]
  simp only [Option.bind_eq_bind, Option.bind_some, habove, Extent.length, hlength]
  rw [hframes, List.drop_left, List.take_left]

theorem get?_flatten (h : stack.frames = flatten (xs ++ x :: ys)) (hi : i + xs.length + 1 = size) :
    Args.get? ⟨stack, size⟩ i = some x.value :=
  get?_append (h.trans (flatten_split xs x ys)) hi

theorem sequence?_flatten (h : stack.frames = flatten (xs ++ x :: ys))
    (hi : i + xs.length + 1 = size) :
    Args.sequence? ⟨stack, size⟩ i = some (x.under.reverse.map Frame.value) :=
  sequence?_append (h.trans (flatten_split xs x ys)) hi

end Arguments

end ShiftReduce
