import ShiftReduce.Proofs.Calculator.Safe

namespace ShiftReduce.Calculator

namespace Evaluator

section Errors

variable {e : Error} {m n : Int}

theorem checked_computed (h : checked n = .error e) : e.Computed := by
  rw [checked] at h
  split at h
  · cases h
  · cases h
    trivial

theorem div_computed (h : div m n = .error e) : e.Computed := by
  rw [div] at h
  split at h
  · cases h
    trivial
  · exact checked_computed h

theorem mapM_ok (ns : List Int) :
    (ns.map Except.ok).mapM id = (.ok ns : Except Error (List Int)) := by
  induction ns with
  | nil => rfl
  | cons n ns ih =>
    rw [List.map_cons, List.mapM_cons, ih]
    rfl

variable {arguments : List (Except Error Int)}

theorem abs_error (h : abs arguments = .error e) : e.Computed ∨ .error e ∈ arguments := by
  match arguments, h with
  | [.ok n], h => exact .inl (checked_computed h)
  | [.error _], h =>
    cases h
    exact .inr List.mem_cons_self
  | [], h | _ :: _ :: _, h =>
    cases h
    exact .inl trivial

theorem mem_of_mapM_error (h : arguments.mapM id = .error e) : .error e ∈ arguments := by
  induction arguments with
  | nil => cases h
  | cons argument rest ih =>
    rw [List.mapM_cons] at h
    cases argument with
    | error _ =>
      cases h
      exact List.mem_cons_self
    | ok n =>
      cases hrest : rest.mapM id with
      | ok ns =>
        rw [hrest] at h
        cases h
      | error _ =>
        rw [hrest] at h
        cases h
        exact List.mem_cons_of_mem _ (ih hrest)

theorem extremum_raises {name : String} {choose : Int → Int → Int}
    (h : extremum name choose arguments = .error e) : e.Computed ∨ .error e ∈ arguments := by
  rw [extremum] at h
  cases harguments : arguments.mapM id with
  | error _ =>
    rw [harguments] at h
    cases h
    exact .inr (mem_of_mapM_error harguments)
  | ok ns =>
    rw [harguments] at h
    cases ns with
    | nil =>
      cases h
      exact .inl trivial
    | cons n ns => cases h

theorem sumFrom_error (h : sumFrom m arguments = .error e) : e.Computed ∨ .error e ∈ arguments := by
  induction arguments generalizing m with
  | nil => cases h
  | cons argument rest ih =>
    cases argument with
    | error _ =>
      cases h
      exact .inr List.mem_cons_self
    | ok n =>
      have hsum : sumFrom m (.ok n :: rest) = (add m n >>= fun total => sumFrom total rest) := rfl
      rw [hsum] at h
      cases hadd : add m n with
      | ok total =>
        rw [hadd] at h
        exact (ih h).imp_right (List.mem_cons_of_mem _)
      | error e' =>
        rw [hadd] at h
        cases h
        exact .inl (checked_computed hadd)

theorem sum_error (h : sum arguments = .error e) : e.Computed ∨ .error e ∈ arguments := by
  rw [sum] at h
  split at h
  · cases h
    exact .inl trivial
  · exact sumFrom_error h

theorem call_error {name : String} (h : call name arguments = .error e) :
    e.Computed ∨ .error e ∈ arguments := by
  unfold call at h
  split at h
  · exact abs_error h
  · exact extremum_raises h
  · exact extremum_raises h
  · exact sum_error h
  · cases h
    exact .inl trivial

theorem call_computed {name : String} (hclean : (Call.call name arguments).Clean)
    (h : call name arguments = .error e) : e.Computed :=
  (call_error h).resolve_right (hclean.not_carries e)

end Errors

variable {σ : Type}

theorem lifted_run {r : Except Error Int} {call : Call} (u : σ)
    (h : ∀ e, r = .error e → e.Computed ∨ call.Carries e) :
    (∃ v, (Value.number <$> actions.liftExcept r : Act σ Value) u = .ok v u) ∨
      ∃ e, (Value.number <$> actions.liftExcept r : Act σ Value) u = .error e u ∧
        (e.Computed ∨ call.Carries e) := by
  cases r with
  | ok n => exact .inl ⟨_, rfl⟩
  | error e => exact .inr ⟨e, rfl, h e rfl⟩

theorem perform_run (call : Call) (u : σ) :
    (∃ v, actions.perform call u = .ok v u) ∨
      ∃ e, actions.perform call u = .error e u ∧ (e.Computed ∨ call.Carries e) := by
  cases call with
  | program results => exact .inl ⟨_, rfl⟩
  | statement n => exact .inl ⟨_, rfl⟩
  | recovered => exact .inl ⟨_, rfl⟩
  | add m n => exact lifted_run u fun e h => .inl (checked_computed h)
  | sub m n => exact lifted_run u fun e h => .inl (checked_computed h)
  | mul m n => exact lifted_run u fun e h => .inl (checked_computed h)
  | div m n => exact lifted_run u fun e h => .inl (div_computed h)
  | neg n => exact lifted_run u fun e h => .inl (checked_computed h)
  | call name arguments => exact lifted_run u fun e h => call_error h

/-- The stock actions, in front of a user that sees every operation before it is carried out. -/
def observed (see : Call → σ → σ) : Actions σ where
  add m n u := actions.add m n (see (.add m n) u)
  sub m n u := actions.sub m n (see (.sub m n) u)
  mul m n u := actions.mul m n (see (.mul m n) u)
  div m n u := actions.div m n (see (.div m n) u)
  neg n u := actions.neg n (see (.neg n) u)
  call name arguments u := actions.call name arguments (see (.call name arguments) u)
  program results u := actions.program results (see (.program results) u)
  statement n u := actions.statement n (see (.statement n) u)
  recovered u := actions.recovered (see .recovered u)
  watch := actions.watch

theorem observed_unseen : (observed fun _ u => u : Actions σ) = actions := rfl

theorem observed_perform (see : Call → σ → σ) (call : Call) (u : σ) :
    (observed see).perform call u = actions.perform call (see call u) := by
  cases call <;> rfl

/-- Since it was `u`, the user has seen operations only that call no function with an error. -/
def Seen (see : Call → σ → σ) (u u' : σ) : Prop :=
  ∃ calls : List Call, (∀ call ∈ calls, call.Clean) ∧
    u' = calls.foldl (fun u call => see call u) u

theorem Seen.refl (see : Call → σ → σ) (u : σ) : Seen see u u := ⟨[], nofun, rfl⟩

theorem Seen.see {see : Call → σ → σ} {u u' : σ} {call : Call} (h : Seen see u u')
    (hclean : call.Clean) : Seen see u (see call u') := by
  obtain ⟨calls, hcalls, rfl⟩ := h
  refine ⟨calls ++ [call], fun other hmem => ?_, ?_⟩
  · rcases List.mem_append.mp hmem with hmem | hmem
    · exact hcalls other hmem
    · rwa [List.mem_singleton.mp hmem]
  · rw [List.foldl_append]
    rfl

theorem observed_safe (see : Call → σ → σ) (u₀ : σ) : (observed see).Safe (Seen see u₀) where
  answered := by
    intro call u v u' hclean hu hrun
    rw [observed_perform] at hrun
    rcases perform_run call (see call u) with ⟨v', h⟩ | ⟨e, h, _⟩
    · rw [h] at hrun
      cases hrun
      exact hu.see hclean
    · rw [h] at hrun
      cases hrun
  failed := by
    intro call u e u' hclean hu hrun
    rw [observed_perform] at hrun
    rcases perform_run call (see call u) with ⟨v', h⟩ | ⟨e, h, hcomputed⟩
    · rw [h] at hrun
      cases hrun
    · rw [h] at hrun
      cases hrun
      exact ⟨hu.see hclean, (hcomputed.resolve_right (hclean.not_carries e)).expected⟩
  watched _ _ hu := hu

end Evaluator

end ShiftReduce.Calculator
