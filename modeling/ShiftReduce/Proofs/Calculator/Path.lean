import ShiftReduce.Calculator.Automaton
import Mathlib.Algebra.GroupWithZero.Nat

/-!
Paths through the calculator's automaton: the states of a parse stack, the most recent first. Each
state is entered by one symbol, and each production is reduced in one state; so what lies on top of
a path at a reduction is the right-hand side of its production.
-/

namespace ShiftReduce.Calculator

inductive Symbol : Type
  | terminal (t : Terminal)
  | nonterminal (n : Nonterminal)
  deriving DecidableEq

def Symbol.all : List Symbol :=
  Terminal.all.map .terminal ++ Nonterminal.all.map .nonterminal

theorem State.mem_all (q : State) : q ∈ State.all := by
  cases q <;> decide

theorem Terminal.mem_all (t : Terminal) : t ∈ Terminal.all := by
  cases t <;> decide

theorem Symbol.mem_all (x : Symbol) : x ∈ Symbol.all := by
  cases x with
  | terminal t => cases t <;> decide
  | nonterminal n => cases n <;> decide

theorem Production.mem_all (p : Production) : p ∈ Production.all := by
  cases p <;> decide

def Production.rhs : Production → List Symbol
  | .start => [.nonterminal .program]
  | .program => [.nonterminal .statements]
  | .noStatement => []
  | .nextStatement => [.nonterminal .statements, .nonterminal .statement]
  | .evaluated => [.nonterminal .expr, .terminal .semicolon]
  | .skipped => [.terminal .error, .terminal .semicolon]
  | .sum => [.nonterminal .expr, .terminal .plus, .nonterminal .term]
  | .difference => [.nonterminal .expr, .terminal .minus, .nonterminal .term]
  | .onlyTerm => [.nonterminal .term]
  | .product => [.nonterminal .term, .terminal .asterisk, .nonterminal .factor]
  | .quotient => [.nonterminal .term, .terminal .slash, .nonterminal .factor]
  | .onlyFactor => [.nonterminal .factor]
  | .literal => [.terminal .int]
  | .group => [.terminal .leftParen, .nonterminal .expr, .terminal .rightParen]
  | .negation => [.terminal .minus, .nonterminal .factor]
  | .call =>
    [.terminal .ident, .terminal .leftParen, .nonterminal .arguments, .terminal .rightParen]
  | .firstArgument => [.nonterminal .expr]
  | .nextArgument => [.nonterminal .arguments, .terminal .comma, .nonterminal .expr]
  | .empty => [.terminal .semicolon]

theorem Production.length_rhs (p : Production) : p.rhs.length = p.rule.size := by
  cases p <;> rfl

def Production.home : Production → State
  | .start => .accepting
  | .program => .statements
  | .noStatement => .start
  | .nextStatement => .statement
  | .evaluated => .closedStatement
  | .skipped => .skipped
  | .sum => .sumTerm
  | .difference => .differenceTerm
  | .onlyTerm => .term
  | .product => .productFactor
  | .quotient => .quotientFactor
  | .onlyFactor => .factor
  | .literal => .literal
  | .group => .closedGroup
  | .negation => .negated
  | .call => .closedArguments
  | .firstArgument => .firstArgument
  | .nextArgument => .nextArgument
  | .empty => .emptyStatement

namespace State

def entry : State → Symbol
  | .start => .nonterminal .start
  | .accepting => .nonterminal .program
  | .statements => .nonterminal .statements
  | .skipping => .terminal .error
  | .emptyStatement | .skipped | .closedStatement => .terminal .semicolon
  | .literal => .terminal .int
  | .openGroup | .openArguments => .terminal .leftParen
  | .minusSign | .minus => .terminal .minus
  | .name => .terminal .ident
  | .statement => .nonterminal .statement
  | .expression | .groupedExpression | .firstArgument | .nextArgument => .nonterminal .expr
  | .term | .sumTerm | .differenceTerm => .nonterminal .term
  | .factor | .negated | .productFactor | .quotientFactor => .nonterminal .factor
  | .plus => .terminal .plus
  | .times => .terminal .asterisk
  | .over => .terminal .slash
  | .closedGroup | .closedArguments => .terminal .rightParen
  | .arguments => .nonterminal .arguments
  | .comma => .terminal .comma

def advance (q : State) : Symbol → Option State
  | .terminal t => match action q t with
    | .shift next => some next
    | _ => none
  | .nonterminal n => goto q n

def predecessors (q : State) : List State := all.filter fun r => r.advance q.entry = some q

/-- The ways in which a path may begin from its top, `n` states below that or down to the start. -/
def trails : Nat → State → List (List State)
  | 0, q => [[q]]
  | n + 1, q =>
    if q = .start then [[q]]
    else q.predecessors.flatMap fun r => (trails n r).map (q :: ·)

end State

theorem State.advance_entry {q next : State} {x : Symbol} (h : q.advance x = some next) :
    next ≠ .start ∧ next.entry = x := by
  have htable : ∀ q ∈ State.all, ∀ x ∈ Symbol.all, ∀ next ∈ q.advance x,
      next ≠ .start ∧ next.entry = x := by decide +kernel
  exact htable q q.mem_all x x.mem_all next h

theorem State.advance_of_shift {q next : State} {t : Terminal} (h : action q t = .shift next) :
    q.advance (.terminal t) = some next := by
  rw [State.advance, h]

theorem State.entry_of_shift {q next : State} {t : Terminal} (h : action q t = .shift next) :
    next.entry = .terminal t :=
  (State.advance_entry (State.advance_of_shift h)).2

theorem goto_entry {q next : State} {n : Nonterminal} (h : goto q n = some next) :
    next.entry = .nonterminal n :=
  (State.advance_entry (x := .nonterminal n) h).2

inductive Path : List State → Prop
  | start : Path [.start]
  | advance {q next : State} {qs : List State} (x : Symbol) :
      Path (q :: qs) → q.advance x = some next → Path (next :: q :: qs)

namespace Path

variable {q : State} {qs : List State}

theorem take_mem_trails (h : Path (q :: qs)) (n : Nat) :
    (q :: qs).take (n + 1) ∈ q.trails n := by
  induction n generalizing q qs with
  | zero => exact List.mem_singleton_self [q]
  | succ n ih =>
    rw [State.trails]
    cases h with
    | start => exact List.mem_singleton_self _
    | @advance r _ rs x hpath hadvance =>
      obtain ⟨hstart, hentry⟩ := State.advance_entry hadvance
      rw [if_neg hstart, List.mem_flatMap]
      refine ⟨r, ?_, List.mem_map.mpr ⟨_, ih hpath, rfl⟩⟩
      rw [State.predecessors, List.mem_filter]
      exact ⟨r.mem_all, by rw [hentry, hadvance, decide_eq_true_eq]⟩

theorem advance_eq {next : State} (h : Path (next :: q :: qs)) :
    q.advance next.entry = some next := by
  cases h with
  | advance x hpath hadvance => rwa [(State.advance_entry hadvance).2]

theorem eq_goto {next next' : State} {n : Nonterminal} (h : Path (next :: q :: qs))
    (hentry : next.entry = .nonterminal n) (hgoto : goto q n = some next') : next = next' := by
  have hadvance := h.advance_eq
  rw [hentry] at hadvance
  exact Option.some.inj (hadvance.symm.trans hgoto)

theorem tail {next : State} (h : Path (next :: q :: qs)) : Path (q :: qs) := by
  cases h with
  | advance x hpath hadvance => exact hpath

theorem of_append {top : List State} (h : Path (top ++ q :: qs)) : Path (q :: qs) := by
  induction top with
  | nil => exact h
  | cons r top ih =>
    apply ih
    cases top with
    | nil => exact h.tail
    | cons r' top => exact h.tail

end Path

def State.weight : State → Nat
  | .literal => 4
  | .factor | .negated | .productFactor | .quotientFactor | .closedGroup | .closedArguments => 3
  | .term | .sumTerm | .differenceTerm | .skipped | .emptyStatement => 2
  | .expression | .groupedExpression | .firstArgument | .nextArgument | .closedStatement
  | .statement | .statements | .minusSign | .name => 1
  | _ => 0

/-- How many reductions are left to one token, at most. Nothing but the reduction of no statements
grows a path, and it needs the path that is the start alone. -/
def potential : List State → Nat
  | [_] => 2
  | qs => (qs.map State.weight).sum

theorem potential_le (qs : List State) : potential qs ≤ 4 * qs.length := by
  have hsum : (qs.map State.weight).sum ≤ 4 * qs.length := by
    induction qs with
    | nil => exact Nat.zero_le _
    | cons q qs ih =>
      have hweight : q.weight ≤ 4 := by cases q <;> decide
      rw [List.map_cons, List.sum_cons, List.length_cons]
      omega
  unfold potential
  split
  · simp
  · exact hsum

theorem eq_of_accept {q : State} {t : Terminal} (h : action q t = .accept) :
    q = .accepting ∧ t = .eof := by
  have htable : ∀ q ∈ State.all, ∀ t ∈ Terminal.all, action q t = .accept →
      q = .accepting ∧ t = .eof := by decide +kernel
  exact htable q q.mem_all t t.mem_all h

theorem home_of_reduce {q : State} {t : Terminal} {p : Production} (h : action q t = .reduce p) :
    p ≠ .start ∧ q = p.home := by
  have htable : ∀ q ∈ State.all, ∀ t ∈ Terminal.all, (match action q t with
      | .reduce p => p ≠ .start && q = p.home
      | _ => true) = true := by decide +kernel
  have hentry := htable q q.mem_all t t.mem_all
  rw [h] at hentry
  simpa using hentry

/-- What lies on top of a path where a production is reduced, above `r`; `next` will replace it. -/
structure Handle (p : Production) (top : List State) (r next : State) : Prop where
  rhs_eq : (top.map State.entry).reverse = p.rhs
  goto_eq : goto r p.rule.lhs = some next
  weight_lt : p = .noStatement ∨ next.weight < (top.map State.weight).sum

theorem handle_of_trail {p : Production} {trail : List State} (hp : p ≠ .start)
    (h : trail ∈ p.home.trails p.rule.size) :
    ∃ r next, trail.drop p.rule.size = [r] ∧ Handle p (trail.take p.rule.size) r next := by
  -- Trails are finitely many, so the table is searched through.
  have htable : ∀ p ∈ Production.all, p ≠ .start → ∀ trail ∈ p.home.trails p.rule.size,
      let top := trail.take p.rule.size
      (top.map State.entry).reverse = p.rhs ∧
        ∃ r ∈ trail.drop p.rule.size, trail.drop p.rule.size = [r] ∧
          ∃ next ∈ goto r p.rule.lhs,
            p = .noStatement ∨ next.weight < (top.map State.weight).sum := by decide +kernel
  obtain ⟨hrhs, r, _, hdrop, next, hgoto, hweight⟩ := htable p p.mem_all hp trail h
  exact ⟨r, next, hdrop, hrhs, hgoto, hweight⟩

namespace Path

variable {q : State} {qs : List State}

theorem handle (h : Path (q :: qs)) {t : Terminal} {p : Production}
    (haction : action q t = .reduce p) :
    ∃ top r rs next, q :: qs = top ++ r :: rs ∧ Path (r :: rs) ∧ Handle p top r next := by
  obtain ⟨hp, hq⟩ := home_of_reduce haction
  have htrail := h.take_mem_trails p.rule.size
  rw [hq] at htrail
  obtain ⟨r, next, hdrop, hhandle⟩ := handle_of_trail hp htrail
  rw [← hq, List.drop_take, Nat.add_sub_cancel_left] at hdrop
  rw [← hq, List.take_take, Nat.min_eq_left (Nat.le_succ _)] at hhandle
  cases hrest : (q :: qs).drop p.rule.size with
  | nil =>
    rw [hrest] at hdrop
    cases hdrop
  | cons r' rs =>
    rw [hrest] at hdrop
    cases hdrop
    have hsplit := List.take_append_drop p.rule.size (q :: qs)
    rw [hrest] at hsplit
    refine ⟨_, r, rs, next, hsplit.symm, ?_, hhandle⟩
    rw [← hsplit] at h
    exact h.of_append

theorem of_start (h : Path (.start :: qs)) : qs = [] := by
  cases h with
  | start => rfl
  | advance x hpath hadvance => exact absurd rfl (State.advance_entry hadvance).1

end Path

namespace Handle

variable {p : Production} {top : List State} {r next : State} {rs : List State}

theorem path (h : Handle p top r next) (hpath : Path (r :: rs)) : Path (next :: r :: rs) :=
  hpath.advance (.nonterminal p.rule.lhs) h.goto_eq

theorem potential_lt (h : Handle p top r next) (hpath : Path (r :: rs)) :
    potential (next :: r :: rs) < potential (top ++ r :: rs) := by
  rcases h.weight_lt with rfl | hweight
  · have htop : top = [] := by
      rw [← List.map_eq_nil_iff, ← List.reverse_eq_nil_iff]
      exact h.rhs_eq
    subst htop
    have hgoto := h.goto_eq
    cases r with
    | start =>
      cases hgoto
      cases hpath.of_start
      decide
    | _ => cases hgoto
  · match top, hweight with
    | [], hweight => exact absurd hweight (Nat.not_lt_zero _)
    | q :: qs, hweight =>
      have hsum : potential (q :: qs ++ r :: rs) =
          ((q :: qs).map State.weight).sum + ((r :: rs).map State.weight).sum := by
        rw [potential, List.map_append, List.sum_append]
        cases qs <;> simp
      rw [hsum]
      show (_ :: List.map State.weight (r :: rs)).sum < _
      rw [List.sum_cons]
      omega

end Handle

end ShiftReduce.Calculator
