import ShiftReduce.Proofs.Engine.Base

namespace ShiftReduce.Engine

variable {S T N P V σ : Type}

/-- The frames from the most recent element on whose head handles errors. States of folded frames do
not count. -/
def exposed (handles : S → Bool) : List (Frame S V) → Option (List (Frame S V))
  | [] => none
  | head :: below =>
    if handles head.state then some (head :: below)
    else exposed handles (below.drop head.folded)
termination_by frames => frames.length
decreasing_by
  simp only [List.length_cons, List.length_drop]
  omega

section Elements

variable {s : Session S V σ} {head : Frame S V} {below : List (Frame S V)}

theorem top?_of_cons (h : s.stack.frames = head :: below) : s.stack.top? = some head := by
  rw [Stack.top?_eq, h, List.head?_cons]

theorem popElements_succ (n : Nat) (h : s.stack.frames = head :: below)
    (hfolded : head.folded ≤ below.length) :
    ∃ stack, s.stack.Became (below.drop head.folded) stack ∧
      popElements (n + 1) s = popElements n { s with stack } := by
  have hdepth : 1 + head.folded ≤ s.stack.depth := by
    rw [← Stack.length_frames, h, List.length_cons]
    omega
  obtain ⟨stack, hpop, hstack⟩ := Stack.pop_of_le hdepth
  rw [h, Nat.add_comm, List.drop_succ_cons] at hstack
  refine ⟨stack, hstack, ?_⟩
  have hrun : pop (1 + head.folded) s = .ok () { s with stack } := by rw [pop_run, hpop]
  rw [popElements, get_bind, top?_of_cons h]
  exact bind_of_ok hrun

theorem popElements_underflow (n : Nat) (h : s.stack.frames = head :: below)
    (hfolded : below.length < head.folded) :
    popElements (n + 1) s =
      .error (.raised (.stack (.underflow (1 + head.folded) s.stack.depth))) s := by
  have hdepth : s.stack.depth < 1 + head.folded := by
    rw [← Stack.length_frames, h, List.length_cons]
    omega
  have hrun : pop (1 + head.folded) s =
      .error (.raised (.stack (.underflow (1 + head.folded) s.stack.depth))) s := by
    rw [pop_run, Stack.pop_of_lt hdepth]
  rw [popElements, get_bind, top?_of_cons h]
  exact bind_of_error hrun

end Elements

variable (e : Engine S T N P V σ)

theorem unwindWithin_exposed (token : T) (steps : Nat) {s t : Session S V σ} {found : Bool}
    (h : e.unwindWithin token steps s = .ok found t) :
    exposed e.table.handlesError s.stack.frames =
      if found then some t.stack.frames else none := by
  induction steps generalizing s with
  | zero => cases h
  | succ steps ih =>
    rw [unwindWithin, get_bind] at h
    cases hframes : s.stack.frames with
    | nil =>
      rw [Stack.top?_eq, hframes] at h
      cases h
      rw [exposed]
      rfl
    | cons head below =>
      rw [top?_of_cons hframes] at h
      rw [exposed]
      by_cases hhead : e.table.handlesError head.state = true
      · simp only [if_pos hhead] at h
        cases h
        rw [if_pos hhead, if_pos rfl, ← hframes]
      · simp only [if_neg hhead] at h
        rw [if_neg hhead]
        -- A head may claim more than lies below it; then the pop faults and nothing is exposed.
        rcases Nat.lt_or_ge below.length head.folded with hlt | hle
        · rw [bind_of_error (popElements_underflow 0 hframes hlt)] at h
          cases h
        · obtain ⟨stack, hstack, hpop⟩ := popElements_succ 0 hframes hle
          rw [bind_of_ok hpop] at h
          rw [← hstack.frames_eq]
          exact ih h

theorem unwind_exposed (token : T) {s t : Session S V σ} {found : Bool}
    (h : e.unwind token s = .ok found t) :
    exposed e.table.handlesError s.stack.frames =
      if found then some t.stack.frames else none :=
  unwindWithin_exposed e token (s.stack.depth + 1) h

theorem unwindWithin_client (token : T) (steps : Nat) {s t : Session S V σ} {found : Bool}
    (h : e.unwindWithin token steps s = .ok found t) :
    (found = false → t.client = e.provider.notify (.unrecoverable token) s.client) ∧
      (found = true → ∀ head below, t.stack.frames = head :: below →
        t.client = e.provider.notify (.resuming head.state) s.client) := by
  induction steps generalizing s with
  | zero => cases h
  | succ steps ih =>
    rw [unwindWithin, get_bind] at h
    cases hframes : s.stack.frames with
    | nil =>
      rw [Stack.top?_eq, hframes] at h
      cases h
      exact ⟨fun _ => rfl, nofun⟩
    | cons head below =>
      rw [top?_of_cons hframes] at h
      by_cases hhead : e.table.handlesError head.state = true
      · simp only [if_pos hhead] at h
        cases h
        refine ⟨nofun, fun _ head' below' hframes' => ?_⟩
        cases hframes.symm.trans hframes'
        rfl
      · simp only [if_neg hhead] at h
        rcases Nat.lt_or_ge below.length head.folded with hlt | hle
        · rw [bind_of_error (popElements_underflow 0 hframes hlt)] at h
          cases h
        · obtain ⟨stack, -, hpop⟩ := popElements_succ 0 hframes hle
          rw [bind_of_ok hpop] at h
          have hrest := ih h
          exact hrest

theorem unwind_client (token : T) {s t : Session S V σ} {found : Bool}
    (h : e.unwind token s = .ok found t) :
    (found = false → t.client = e.provider.notify (.unrecoverable token) s.client) ∧
      (found = true → ∀ head below, t.stack.frames = head :: below →
        t.client = e.provider.notify (.resuming head.state) s.client) :=
  unwindWithin_client e token (s.stack.depth + 1) h

end ShiftReduce.Engine
