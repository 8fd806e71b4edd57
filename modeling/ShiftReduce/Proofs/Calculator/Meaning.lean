import ShiftReduce.Proofs.Calculator.Source

namespace ShiftReduce.Calculator

variable {σ : Type} {m : Arithmetic} {source : String} {w : Word} {history : List String}

section Summary

variable {x : EStateM.Result (Halt Error) (Session σ) Outcome} {results : List (Option Int)}
  {e : Error}

theorem ok_of_answer? {outcome : Outcome} (h : answer? x = some outcome) :
    ∃ t, x = .ok outcome t := by
  cases x with
  | ok a t =>
    cases h
    exact ⟨t, rfl⟩
  | error halt t => cases h

theorem ok_of_summary (h : summary x = some (.ok results)) :
    ∃ ds t, x = .ok ⟨results, ds⟩ t := by
  cases x with
  | ok outcome t =>
    cases h
    exact ⟨outcome.diagnostics, t, rfl⟩
  | error halt t => cases halt <;> cases h

theorem raised_of_summary (h : summary x = some (.error e)) :
    ∃ e' t, x = .error (.raised e') t ∧ e'.unlocated = e := by
  cases x with
  | ok outcome t => cases h
  | error halt t =>
    cases halt with
    | raised e' =>
      cases h
      exact ⟨e', t, rfl, rfl⟩
    | crash | exhausted => cases h

theorem Error.computed_of_unlocated (h : e.unlocated.Computed) : e.Computed := by
  cases e <;> exact h

theorem rejected_of_summary (h : summary x = some (.error (.rejected []))) :
    ∃ ds t, x = .error (.raised (.rejected ds)) t := by
  obtain ⟨e, t, rfl, he⟩ := raised_of_summary h
  cases e with
  | rejected ds => exact ⟨ds, t, rfl⟩
  | _ => cases he

end Summary

theorem Spells.lexed (h : Spells source w) : ∀ tv ∈ w, Lexed tv := by
  obtain ⟨body, hbody, hitems, -⟩ := items_line source ""
  rw [h] at hitems
  obtain rfl := List.append_cancel_right hitems
  intro tv hmem
  exact hbody (.ok tv) (List.mem_map_of_mem hmem) tv rfl

theorem Spells.evaluates (h : Spells source w) {cells : List Cell} {us : List (Option (Option Int))}
    {r : Except Error (List (Option Int))} (hcells : Boundary m us cells)
    (hbegins : ∀ piece ∈ pieces w, Begins piece) (hr : Evaluates m cells (items source) r) :
    Raises m r ∨ ∃ lists, List.Forall₂ (Contributes m) (pieces w).dropLast lists ∧
      r = if (pieces w).getLast? = some [] then .ok (us.filterMap id ++ lists.flatten)
        else .error (.rejected []) := by
  rw [h] at hr
  exact (cut_pieces h.lexed).evaluates hcells h.lexed hbegins hr

instance : DecidablePred Begins := fun piece => by
  unfold Begins
  infer_instance

/-- With the stock actions and options, and as long as no operation fails, a source whose pieces
begin like expressions is rejected when something follows its last semicolon. Otherwise its results
are those of its expressions, and none for each piece that is skipped. -/
theorem calculate_pieces (user : σ) (history : List String) (hsource : Spells source w)
    (hraised : ∀ e t, calculate user history source = .error (.raised e) t → ¬ e.Computed)
    (hbegins : ∀ piece ∈ pieces w, Begins piece) :
    ((∃ ds t, calculate user history source = .error (.raised (.rejected ds)) t) ↔
      (pieces w).getLast? ≠ some []) ∧
    ((pieces w).getLast? = some [] → ∃ lists ds t,
      List.Forall₂ (Contributes Evaluator.arithmetic) (pieces w).dropLast lists ∧
      (∀ lists', List.Forall₂ (Contributes Evaluator.arithmetic) (pieces w).dropLast lists' →
        lists' = lists) ∧
      calculate user history source = .ok ⟨lists.flatten, ds⟩ t) := by
  obtain ⟨r, hsummary, hr⟩ := calculate_evaluates user history source
  rcases hsource.evaluates .start hbegins hr with ⟨call, e, hanswer, rfl⟩ | ⟨lists, hlists, rfl⟩
  · obtain ⟨e', t, hcalculate, rfl⟩ := raised_of_summary hsummary
    have hcomputed := Evaluator.actions_answers (σ := σ).computed hanswer
    exact absurd (Error.computed_of_unlocated hcomputed) (hraised e' t hcalculate)
  · by_cases hlast : (pieces w).getLast? = some []
    · rw [if_pos hlast] at hsummary
      obtain ⟨ds, t, hcalculate⟩ := ok_of_summary hsummary
      have hunique : Relator.RightUnique (Contributes Evaluator.arithmetic) :=
        fun _ _ _ h h' => h.unique h'
      refine ⟨⟨?_, fun hne => absurd hlast hne⟩, fun _ => ⟨lists, ds, t, hlists,
        fun lists' hlists' => hunique.forall₂ hlists' hlists, hcalculate⟩⟩
      rintro ⟨ds', t', hrejected⟩
      cases hcalculate.symm.trans hrejected
    · rw [if_neg hlast] at hsummary
      exact ⟨⟨fun _ => hlast, fun _ => rejected_of_summary hsummary⟩, fun h => absurd h hlast⟩

def mended : Word :=
  [(.int, .number 1), (.plus, .nothing), (.leftParen, .nothing), (.int, .number 2),
    (.asterisk, .nothing), semicolon, (.minus, .nothing), (.int, .number 4), semicolon, semicolon,
    (.ident, .name "sum"), (.leftParen, .nothing), (.int, .number 1), (.comma, .nothing),
    (.leftParen, .nothing), (.int, .number 2), (.int, .number 3), semicolon]

theorem calculate_pieces_broken :
    ∃ lists ds t, List.Forall₂ (Contributes Evaluator.arithmetic) (pieces mended).dropLast lists ∧
      lists.flatten = [none, some (-4), none] ∧
      calculate () ["1 / 0;", "+"] "1 + (2 * ; -4; ; sum(1, (2 3;" = .ok ⟨lists.flatten, ds⟩ t := by
  have hsummary : summary (calculate () ["1 / 0;", "+"] "1 + (2 * ; -4; ; sum(1, (2 3;") =
      some (.ok [none, some (-4), none]) := by decide +kernel
  have hspells : Spells "1 + (2 * ; -4; ; sum(1, (2 3;" mended := by
    unfold Spells
    decide +kernel
  have hraised : ∀ e t, calculate () ["1 / 0;", "+"] "1 + (2 * ; -4; ; sum(1, (2 3;" =
      .error (.raised e) t → ¬ e.Computed := by
    intro e t hraised
    rw [hraised] at hsummary
    cases hsummary
  obtain ⟨-, hresults⟩ :=
    calculate_pieces () ["1 / 0;", "+"] hspells hraised (by decide +kernel)
  obtain ⟨lists, ds, t, hlists, -, hcalculate⟩ := hresults (by decide +kernel)
  refine ⟨lists, ds, t, hlists, ?_, hcalculate⟩
  rw [hcalculate] at hsummary
  exact Except.ok.inj (Option.some.inj hsummary)

end ShiftReduce.Calculator
