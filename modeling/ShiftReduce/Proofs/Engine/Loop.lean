import ShiftReduce.Proofs.Engine.Founded
import ShiftReduce.Proofs.Engine.Quiet

/-!
A drive as a loop. The reach of an engine bounds how many decisions a drive may take; a loop has no
such bound, and the reductions on its way are counted. What a loop comes to, a drive whose reach
goes beyond the count comes to as well. A loop that does not fail has accepted its token or shifted
it.
-/

namespace ShiftReduce.Engine

variable {S T N P V σ : Type} [Inhabited V] {e : Engine S T N P V σ} {token : T} {value : V}
  {s t : Session S V σ} {r : EStateM.Result (Halt Fault) (Session S V σ) Unit}

section Loops

variable (e)

def reductionsDue (token : T) (s : Session S V σ) : Nat :=
  match s.stack.top? with
  | some frame =>
    match e.table.action frame.state token with
    | .reduce _ => 1
    | _ => 0
  | none => 0

/-- A token is decided on until that settles it or halts; on the way there are `n` reductions, the
last one included if it is cut short. -/
inductive Loops (token : T) (value : V) : Nat → Session S V σ →
    EStateM.Result (Halt Fault) (Session S V σ) Unit → Prop
  | settled {s t : Session S V σ} : e.decideToken token value s = .ok true t →
      Loops token value (e.reductionsDue token s) s (.ok () t)
  | halted {s t : Session S V σ} {halt : Halt Fault} : e.decideToken token value s = .error halt t →
      Loops token value (e.reductionsDue token s) s (.error halt t)
  | undecided {s t : Session S V σ} {n r} : e.decideToken token value s = .ok false t →
      Loops token value n t r → Loops token value (e.reductionsDue token s + n) s r

end Loops

omit [Inhabited V] in
theorem reductionsDue_le (token : T) (s : Session S V σ) : e.reductionsDue token s ≤ 1 := by
  unfold reductionsDue
  split
  · split <;> omega
  · omega

theorem reductionsDue_of_undecided (h : e.decideToken token value s = .ok false t) :
    e.reductionsDue token s = 1 := by
  have hdecided := decideToken_decided e s token value
  rw [h] at hdecided
  cases hdecided with
  | reduced hframes haction =>
    rw [reductionsDue, top?_of_cons hframes]
    simp only [haction]

theorem Loops.driveWithin_eq {n : Nat} (h : Loops e token value n s r) {steps : Nat}
    (hsteps : n < steps) : e.driveWithin token value steps s = r := by
  induction h generalizing steps with
  | settled hdecide =>
    obtain ⟨steps, rfl⟩ := Nat.exists_eq_add_one.mpr (Nat.zero_lt_of_lt hsteps)
    exact bind_of_ok hdecide
  | halted hdecide =>
    obtain ⟨steps, rfl⟩ := Nat.exists_eq_add_one.mpr (Nat.zero_lt_of_lt hsteps)
    exact bind_of_error hdecide
  | undecided hdecide _ ih =>
    obtain ⟨steps, rfl⟩ := Nat.exists_eq_add_one.mpr (Nat.zero_lt_of_lt hsteps)
    rw [reductionsDue_of_undecided hdecide] at hsteps
    have hrun := bind_of_ok (f := fun settled =>
      if settled then pure () else e.driveWithin token value steps) hdecide
    exact hrun.trans (ih (by omega))

theorem exists_loop {steps : Nat} (h : e.driveWithin token value steps s = r)
    (hr : ∀ t, r ≠ .error .exhausted t) : ∃ n ≤ steps, Loops e token value n s r := by
  induction steps generalizing s with
  | zero => exact absurd h.symm (hr s)
  | succ steps ih =>
    have hdue := reductionsDue_le (e := e) token s
    rw [driveWithin] at h
    cases hdecide : e.decideToken token value s with
    | error halt t =>
      rw [bind_of_error hdecide] at h
      subst h
      exact ⟨_, by omega, .halted hdecide⟩
    | ok settled t =>
      rw [bind_of_ok hdecide] at h
      cases settled with
      | true =>
        cases h
        exact ⟨_, by omega, .settled hdecide⟩
      | false =>
        obtain ⟨n, hn, hloops⟩ := ih h
        exact ⟨_, by omega, .undecided hdecide hloops⟩

section Consumes

omit [Inhabited V] in
theorem Hushes.accepted_eq {α : Type} {x : Run S V σ α} {a : Bool} {b : α}
    (h : Hushes e Session.accepted a x) (hrun : x s = .ok b t) (hs : s.accepted = a) :
    t.accepted = a := by
  have hhushed := h s hs
  rw [hrun] at hhushed
  cases hhushed with
  | unseen ht => exact ht
  | crowded hu => exact hu

end Consumes

end ShiftReduce.Engine
