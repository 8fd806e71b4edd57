import ShiftReduce.Proofs.Frame.Cursor

namespace ShiftReduce

variable {S V : Type}

namespace Cursor

inductive Side : Type
  | front
  | back
  deriving DecidableEq

def Side.put : Side → V → List V → List V
  | .front, v, vs => v :: vs
  | .back, v, vs => vs ++ [v]

def advance : Side → Cursor S V → Option V × Cursor S V
  | .front => next
  | .back => nextBack

def run : List Side → Cursor S V → List (Side × Option V) × Cursor S V
  | [], c => ([], c)
  | side :: sides, c =>
    let (v, d) := c.advance side
    let (answers, left) := run sides d
    ((side, v) :: answers, left)

def given (side : Side) (answers : List (Side × Option V)) : List V :=
  answers.filterMap fun answer => if answer.1 = side then answer.2 else none

def parts (answers : List (Side × Option V)) (rest : List V) : List V :=
  given .front answers ++ rest ++ (given .back answers).reverse

section Parts

variable (side : Side) (answers : List (Side × Option V)) (rest : List V)

@[simp] theorem parts_nil : parts [] rest = rest := by
  simp [parts, given]

@[simp] theorem parts_none : parts ((side, none) :: answers) rest = parts answers rest := by
  simp [parts, given]

@[simp] theorem parts_some (v : V) :
    parts ((side, some v) :: answers) rest = side.put v (parts answers rest) := by
  cases side <;> simp [parts, given, Side.put]

end Parts

section Run

variable {c d left : Cursor S V} {side : Side} {sides : List Side} {v : Option V} {values : List V}
  {answers : List (Side × Option V)}

theorem run_cons (hside : c.advance side = (v, d)) (hrun : d.run sides = (answers, left)) :
    c.run (side :: sides) = ((side, v) :: answers, left) := by
  rw [run, hside]
  simp only [hrun]

theorem Views.advance_nil (h : Views c []) (side : Side) : c.advance side = (none, c) := by
  cases side with
  | front => exact h.next_nil
  | back => exact h.nextBack_nil

theorem Views.advance (h : Views c values) (hne : values ≠ []) (side : Side) :
    ∃ v rest d, values = side.put v rest ∧ c.advance side = (some v, d) ∧ d.Views rest := by
  cases side with
  | front =>
    obtain ⟨first, rest, rfl⟩ := List.exists_cons_of_ne_nil hne
    obtain ⟨d, hd, hrest⟩ := h.next_cons
    exact ⟨first, rest, d, rfl, hd, hrest⟩
  | back =>
    have hlast := List.dropLast_concat_getLast hne
    rw [← hlast] at h
    obtain ⟨d, hd, hrest⟩ := h.nextBack_concat
    exact ⟨_, _, d, hlast.symm, hd, hrest⟩

theorem Views.advance_eq_none_iff (h : Views c values) (side : Side) :
    (c.advance side).1 = none ↔ c.length = 0 := by
  rw [h.length_eq, List.length_eq_zero_iff]
  constructor
  · intro hnone
    by_contra hne
    obtain ⟨v, rest, d, -, hd, -⟩ := h.advance hne side
    rw [hd] at hnone
    cases hnone
  · rintro rfl
    rw [h.advance_nil]

theorem Views.run_nil (h : Views c []) (sides : List Side) :
    c.run sides = (sides.map (·, none), c) := by
  induction sides with
  | nil => rfl
  | cons side sides ih => exact run_cons (h.advance_nil side) ih

theorem Views.run (h : Views c values) (sides : List Side) :
    ∃ answers rest d, c.run sides = (answers, d) ∧ d.Views rest ∧ parts answers rest = values := by
  induction sides generalizing c values with
  | nil => exact ⟨[], values, c, rfl, h, parts_nil values⟩
  | cons side sides ih =>
    by_cases hnil : values = []
    · subst hnil
      obtain ⟨answers, rest, d, hrun, hviews, hparts⟩ := ih h
      refine ⟨_, rest, d, run_cons (h.advance_nil side) hrun, hviews, ?_⟩
      rw [parts_none, hparts]
    · obtain ⟨v, later, d, hvalues, hd, hlater⟩ := h.advance hnil side
      obtain ⟨answers, rest, left, hrun, hviews, hparts⟩ := ih hlater
      refine ⟨_, rest, left, run_cons hd hrun, hviews, ?_⟩
      rw [parts_some, hparts, hvalues]

def onto (stack : Stack (Frame S V)) (c : Cursor S V) : Cursor S V := { c with stack }

variable {other : Stack (Frame S V)}

theorem advance_stack (side : Side) (c : Cursor S V) : (c.advance side).2.stack = c.stack := by
  cases side with
  | front =>
    rw [Cursor.advance, next]
    split <;> rfl
  | back =>
    rw [Cursor.advance, nextBack]
    split <;> rfl

theorem advance_onto (h : other.frames = c.stack.frames) (side : Side) :
    (c.onto other).advance side = ((c.advance side).1, (c.advance side).2.onto other) := by
  cases side with
  | front =>
    simp only [Cursor.advance, next, onto, Stack.nth?_eq, h]
    split <;> rfl
  | back =>
    simp only [Cursor.advance, nextBack, onto, Stack.nth?_eq, h]
    split <;> rfl

theorem run_onto (h : other.frames = c.stack.frames) (sides : List Side) :
    (c.onto other).run sides = ((c.run sides).1, (c.run sides).2.onto other) := by
  induction sides generalizing c with
  | nil => rfl
  | cons side sides ih =>
    have hnext : other.frames = (c.advance side).2.stack.frames := by rw [advance_stack, h]
    exact run_cons (advance_onto h side) (ih hnext)

end Run

structure Divides (values : List V) (answers : List (Side × Option V)) (rest : List V)
    (d : Cursor S V) : Prop where
  parts_eq : parts answers rest = values
  views : d.Views rest
  length_eq : d.length = rest.length
  none_iff : ∀ side, (d.advance side).1 = none ↔ d.length = 0
  ended : d.length = 0 → ∀ sides, d.run sides = (sides.map (·, none), d)

theorem Views.divides {d : Cursor S V} {values rest : List V} {answers : List (Side × Option V)}
    (h : d.Views rest) (hparts : parts answers rest = values) : Divides values answers rest d where
  parts_eq := hparts
  views := h
  length_eq := h.length_eq
  none_iff := h.advance_eq_none_iff
  ended hzero := by
    rw [h.length_eq, List.length_eq_zero_iff] at hzero
    subst hzero
    exact h.run_nil

/-- A cursor over an argument may be advanced at either end, in any order: what was given out in
front, what is left and what was given out behind are always the values of the sequence. Where the
stack is cut does not show. -/
theorem run_interleaves {stack : Stack (Frame S V)} {size i : Nat} {c : Cursor S V}
    (h : Args.cursor? ⟨stack, size⟩ i = some c) (sides : List Side) :
    ∃ values answers rest d, Args.sequence? ⟨stack, size⟩ i = some values ∧
      c.run sides = (answers, d) ∧ Divides values answers rest d ∧
      ∀ other : Stack (Frame S V), other.frames = stack.frames →
        Args.cursor? ⟨other, size⟩ i = some (c.onto other) ∧
          (c.onto other).run sides = (answers, d.onto other) := by
  obtain ⟨extent, hextent, hc⟩ := Option.map_eq_some_iff.mp h
  obtain ⟨xs, x, below, hframes, hi⟩ := exists_argument hextent
  obtain ⟨c', hc', hviews⟩ := cursor?_append hframes hi
  cases h.symm.trans hc'
  obtain ⟨answers, rest, d, hrun, hrest, hparts⟩ := hviews.run sides
  refine ⟨_, answers, rest, d, sequence?_append hframes hi, hrun, hrest.divides hparts, ?_⟩
  intro other hother
  have hstack : other.frames = c.stack.frames := hc ▸ hother
  constructor
  · rw [Args.cursor?, extent?_congr hother, hextent, ← hc]
    rfl
  · rw [run_onto hstack, hrun]

section Cut

def cutAt (n : Nat) : Stack (Frame Nat Nat) :=
  let frames : List (Frame Nat Nat) := [⟨4, 0, 3⟩, ⟨3, 30, 0⟩, ⟨2, 20, 0⟩, ⟨1, 10, 0⟩, ⟨0, 0, 0⟩]
  let kept : Pile (Frame Nat Nat) := ⟨frames.drop n, _, rfl⟩
  ⟨kept, kept, ⟨frames.take n, _, rfl⟩, none⟩

theorem run_interleaves_cut :
    ∃ c, Args.cursor? ⟨cutAt 2, 1⟩ 0 = some c ∧ (cutAt 4).frames = (cutAt 2).frames ∧
      ∃ answers d, c.run [.back, .front] = (answers, d) ∧
        answers = [(.back, some 30), (.front, some 10)] ∧
        Divides [10, 20, 30] answers [20] d ∧
        (c.onto (cutAt 4)).run [.back, .front] = (answers, d.onto (cutAt 4)) := by
  have hcursor : Args.cursor? ⟨cutAt 2, 1⟩ 0 = some ⟨cutAt 2, ⟨1, 4⟩⟩ := rfl
  obtain ⟨values, answers, rest, d, hsequence, hrun, hdivides, hother⟩ :=
    run_interleaves hcursor [.back, .front]
  obtain rfl : [10, 20, 30] = values := Option.some.inj hsequence
  obtain rfl : [(.back, some 30), (.front, some 10)] = answers := congrArg Prod.fst hrun
  obtain rfl : rest = [20] := by
    have hparts : [10] ++ rest ++ [30] = [10] ++ [20] ++ [30] := hdivides.parts_eq
    exact List.append_cancel_left (List.append_cancel_right hparts)
  exact ⟨_, hcursor, rfl, _, d, hrun, rfl, hdivides, (hother (cutAt 4) rfl).2⟩

end Cut

end Cursor

end ShiftReduce
