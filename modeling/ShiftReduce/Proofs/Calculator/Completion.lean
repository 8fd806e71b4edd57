import ShiftReduce.Proofs.Calculator.Sound

/-!
Every proper stack can be completed: there is a word without errors that leads from it to
acceptance. Each state wants a token that brings it closer to the end of the program.
-/

namespace ShiftReduce.Calculator

namespace State

def wanted : State → Terminal
  | .start | .accepting | .statements | .emptyStatement | .statement | .skipped
  | .closedStatement => .eof
  | .skipping | .expression => .semicolon
  | .name => .leftParen
  | .openGroup | .minusSign | .openArguments | .plus | .minus | .times | .over | .comma => .int
  | .literal | .term | .factor | .groupedExpression | .negated | .closedGroup | .arguments
  | .firstArgument | .sumTerm | .differenceTerm | .productFactor | .quotientFactor
  | .closedArguments | .nextArgument => .rightParen

def need : State → Nat
  | .accepting => 0
  | .statements | .closedGroup | .closedArguments => 1
  | .start | .statement | .groupedExpression | .arguments => 2
  | .emptyStatement | .closedStatement | .skipped | .firstArgument | .nextArgument => 3
  | .skipping | .expression => 4
  | .term | .sumTerm | .differenceTerm => 5
  | .factor | .negated | .productFactor | .quotientFactor => 6
  | .literal => 7
  | .plus | .minus | .times | .over | .comma => 8
  | .minusSign => 9
  | .openGroup | .openArguments => 14
  | .name => 15

def owed : State → Nat
  | .minusSign => 1
  | .openGroup | .openArguments => 6
  | _ => 0

end State

def cost : List State → Nat
  | [] => 0
  | q :: qs => q.need + (qs.map State.owed).sum

theorem cost_append {top : List State} (htop : top ≠ []) (below : List State) :
    cost (top ++ below) = cost top + (below.map State.owed).sum := by
  obtain ⟨q, qs, rfl⟩ := List.exists_cons_of_ne_nil htop
  rw [List.cons_append, cost, cost, List.map_append, List.sum_append, Nat.add_assoc]

theorem wanted_ne_error (q : State) : action q q.wanted ≠ .error := by
  have htable : ∀ q ∈ State.all, action q q.wanted ≠ .error := by decide +kernel
  exact htable q q.mem_all

theorem cost_of_shift {q next : State} (h : action q q.wanted = .shift next) :
    q.wanted ∈ [.int, .semicolon, .leftParen, .rightParen] ∧ q.owed + next.need < q.need := by
  have htable : ∀ q ∈ State.all, ∀ next ∈ State.all, action q q.wanted = .shift next →
      q.wanted ∈ [.int, .semicolon, .leftParen, .rightParen] ∧ q.owed + next.need < q.need := by
    decide +kernel
  exact htable q q.mem_all next next.mem_all h

theorem cost_of_reduce {q r next : State} {p : Production} {top : List State}
    (h : action q q.wanted = .reduce p) (htrail : top ++ [r] ∈ q.trails p.rule.size)
    (hsize : top.length = p.rule.size) (hgoto : goto r p.rule.lhs = some next) :
    cost [next, r] < cost (top ++ [r]) ∧ ∀ t, action next t ≠ .error → action q t = .reduce p := by
  have htable : ∀ q ∈ State.all, (match action q q.wanted with
      | .reduce p => (q.trails p.rule.size).all fun trail =>
        (trail.drop p.rule.size).all fun r => (goto r p.rule.lhs).all fun next =>
          decide (cost [next, r] < cost trail) &&
            Terminal.all.all fun t => (action next t).isError || decide (action q t = .reduce p)
      | _ => true) = true := by decide +kernel
  have hentry := htable q q.mem_all
  rw [h] at hentry
  simp only [List.all_eq_true] at hentry
  have hr : r ∈ (top ++ [r]).drop p.rule.size := by simp [← hsize]
  have hchecked := hentry _ htrail r hr
  rw [hgoto, Option.all_some, Bool.and_eq_true, decide_eq_true_eq, List.all_eq_true] at hchecked
  refine ⟨hchecked.1, fun t ht => ?_⟩
  have hreduces := hchecked.2 t t.mem_all
  cases haction : action next t with
  | error => exact absurd haction ht
  | accept | shift | reduce =>
    rw [haction] at hreduces
    simpa [Action.isError] using hreduces

theorem Algebra.yields (a : Algebra) (work : Work) : work.Yields (a.content work) := by
  cases work with
  | done c => exact .done c
  | perform call =>
    refine .performed ?_
    cases call <;> exact ⟨_, rfl⟩

theorem exists_lexed {t : Terminal} (h : t ∈ [.int, .semicolon, .leftParen, .rightParen]) :
    ∃ v, Lexed (t, v) := by
  simp only [List.mem_cons, List.not_mem_nil, or_false] at h
  rcases h with rfl | rfl | rfl | rfl
  · exact ⟨_, .int 0, nofun, nofun⟩
  · exact ⟨_, .mark nofun nofun, nofun, nofun⟩
  · exact ⟨_, .mark nofun nofun, nofun, nofun⟩
  · exact ⟨_, .mark nofun nofun, nofun, nofun⟩

theorem Reduces.cost_lt {p : Production} {cell : Cell} {cells below : List Cell} {work : Work}
    {next : State} (h : Reduces p (cell :: cells) work next below)
    (hpath : Path ((cell :: cells).map Cell.state))
    (haction : action cell.state cell.state.wanted = .reduce p) :
    cost (next :: below.map Cell.state) < cost ((cell :: cells).map Cell.state) ∧
      ∀ t, action next t ≠ .error → action cell.state t = .reduce p := by
  generalize hall : cell :: cells = all at h hpath
  obtain @⟨top, r, below, _, _, htop, hasks, hgoto⟩ := h
  have hsize := length_top htop
  have htrail := (hall ▸ hpath).take_mem_trails p.rule.size
  rw [← List.map_cons, hall, List.map_append, List.map_cons] at htrail
  have hlength : (top.map Cell.state).length = p.rule.size := by rw [List.length_map, hsize]
  have htake : (top.map Cell.state ++ r.state :: below.map Cell.state).take (p.rule.size + 1) =
      top.map Cell.state ++ [r.state] := by
    rw [← hlength, List.take_length_add_append]
    rfl
  rw [htake] at htrail
  obtain ⟨hcost, hreduce⟩ := cost_of_reduce haction htrail hlength hgoto
  refine ⟨?_, hreduce⟩
  have hbefore := cost_append (by simp : top.map Cell.state ++ [r.state] ≠ [])
    (below.map Cell.state)
  have hafter := cost_append (by simp : [next, r.state] ≠ []) (below.map Cell.state)
  rw [List.map_append, List.map_cons]
  simp only [List.append_assoc, List.cons_append, List.nil_append] at hbefore hafter
  rw [hbefore, hafter]
  omega

theorem Proper.completes (a : Algebra) {cells : List Cell} (h : Proper cells) :
    ∃ u result, (∀ tv ∈ u, Lexed tv) ∧ Accepts a cells (u ++ [(.eof, .nothing)]) result := by
  -- Whatever the state on top waits for, reading it or reducing before it lowers the cost.
  induction hcost : cost (cells.map Cell.state) using Nat.strongRecOn generalizing cells with
  | ind n ih =>
    subst hcost
    cases cells with
    | nil => cases h.path
    | cons cell cells =>
      cases haction : action cell.state cell.state.wanted with
      | error => exact absurd haction (wanted_ne_error _)
      | accept =>
        rw [(eq_of_accept haction).2] at haction
        exact ⟨[], _, nofun, .accept haction⟩
      | shift next =>
        obtain ⟨hwanted, hless⟩ := cost_of_shift haction
        obtain ⟨v, hlexed⟩ := exists_lexed hwanted
        have hshorter : cost ((⟨next, .value v⟩ :: cell :: cells).map Cell.state) <
            cost ((cell :: cells).map Cell.state) := by
          simp only [List.map_cons, cost, List.sum_cons]
          omega
        obtain ⟨u, result, hu, haccepts⟩ := ih _ hshorter (h.shift haction hlexed.1) rfl
        exact ⟨_ :: u, result, List.forall_mem_cons.mpr ⟨hlexed, hu⟩, .shift haction haccepts⟩
      | reduce p =>
        obtain ⟨work, next, below, hreduces, -, hnext⟩ := h.reduces haction
        obtain ⟨hless, hreduce⟩ := hreduces.cost_lt h.path haction
        obtain ⟨u, result, hu, haccepts⟩ := ih _ hless (hnext _ (a.yields work)).1 rfl
        refine ⟨u, result, hu, ?_⟩
        -- The reduction is done before whichever token comes next.
        obtain ⟨⟨t, v⟩, rest, hword⟩ := List.exists_cons_of_ne_nil
          (by simp : u ++ [(Terminal.eof, Value.nothing)] ≠ [])
        rw [hword] at haccepts ⊢
        exact .reduce (hreduce t fun herror => not_accepts herror haccepts) hreduces haccepts

end ShiftReduce.Calculator
