import ShiftReduce.Proofs.Calculator.Tree

namespace ShiftReduce.Calculator

def Algebra.answer (a : Algebra) : Call → Value
  | .program results => .program results
  | .statement n => .statement (a.statement n)
  | .recovered => .statement none
  | .add m n => .number (a.add m n)
  | .sub m n => .number (a.sub m n)
  | .mul m n => .number (a.mul m n)
  | .div m n => .number (a.div m n)
  | .neg n => .number (a.neg n)
  | .call name arguments => .number (a.call name (arguments.filterMap Except.toOption))

def Algebra.content (a : Algebra) : Work → Content
  | .done c => c
  | .perform call => .value (a.answer call)

inductive Accepts (a : Algebra) : List Cell → Word → Value → Prop
  | accept {cell cells t v rest} : action cell.state t = .accept →
      Accepts a (cell :: cells) ((t, v) :: rest) cell.content.head
  | shift {cell cells t v next rest result} : action cell.state t = .shift next →
      Accepts a (⟨next, .value v⟩ :: cell :: cells) rest result →
      Accepts a (cell :: cells) ((t, v) :: rest) result
  | reduce {cell cells t v rest p work next below result} : action cell.state t = .reduce p →
      Reduces p (cell :: cells) work next below →
      Accepts a (⟨next, a.content work⟩ :: below) ((t, v) :: rest) result →
      Accepts a (cell :: cells) ((t, v) :: rest) result

section Steps

variable {a : Algebra} {cell : Cell} {cells below : List Cell} {t : Terminal} {v result : Value}
  {rest : Word} {next : State} {p : Production} {work : Work}

theorem not_accepts (h : action cell.state t = .error) :
    ¬ Accepts a (cell :: cells) ((t, v) :: rest) result := by
  intro haccepts
  cases haccepts with
  | accept haction | shift haction | reduce haction =>
    rw [h] at haction
    cases haction

theorem accepts_accept_iff (h : action cell.state t = .accept) :
    Accepts a (cell :: cells) ((t, v) :: rest) result ↔ result = cell.content.head := by
  constructor
  · intro haccepts
    cases haccepts with
    | accept => rfl
    | shift haction | reduce haction =>
      rw [h] at haction
      cases haction
  · rintro rfl
    exact .accept h

theorem accepts_shift_iff (h : action cell.state t = .shift next) :
    Accepts a (cell :: cells) ((t, v) :: rest) result ↔
      Accepts a (⟨next, .value v⟩ :: cell :: cells) rest result := by
  constructor
  · intro haccepts
    cases haccepts with
    | shift haction haccepts =>
      rw [h] at haction
      cases haction
      exact haccepts
    | accept haction | reduce haction =>
      rw [h] at haction
      cases haction
  · exact .shift h

theorem accepts_reduce_iff (h : action cell.state t = .reduce p)
    (hreduces : Reduces p (cell :: cells) work next below) :
    Accepts a (cell :: cells) ((t, v) :: rest) result ↔
      Accepts a (⟨next, a.content work⟩ :: below) ((t, v) :: rest) result := by
  constructor
  · intro haccepts
    cases haccepts with
    | reduce haction hreduces' haccepts =>
      rw [h] at haction
      cases haction
      obtain ⟨rfl, rfl, rfl⟩ := hreduces.unique hreduces'
      exact haccepts
    | accept haction | shift haction =>
      rw [h] at haction
      cases haction
  · exact .reduce h hreduces

end Steps

def Nonterminal.follow : Nonterminal → List Terminal
  | .start => []
  | .program => [.eof]
  | .statements | .statement => [.int, .ident, .minus, .leftParen, .semicolon, .eof]
  | .expr => [.plus, .minus, .rightParen, .comma, .semicolon]
  | .term | .factor => [.plus, .minus, .asterisk, .slash, .rightParen, .comma, .semicolon]
  | .arguments => [.rightParen, .comma]

theorem reduce_of_follow {p : Production} {t : Terminal} (hp : p ≠ .start)
    (ht : t ∈ p.rule.lhs.follow) : action p.home t = .reduce p := by
  have htable : ∀ p ∈ Production.all, p ≠ .start → ∀ t ∈ p.rule.lhs.follow,
      action p.home t = .reduce p := by decide +kernel
  exact htable p p.mem_all hp t ht

section Gotos

variable {q next : State}

theorem goto_program (h : goto q .program = some next) : q = .start ∧ next = .accepting := by
  cases q <;> cases h
  exact ⟨rfl, rfl⟩

theorem goto_statements (h : goto q .statements = some next) : q = .start ∧ next = .statements := by
  cases q <;> cases h
  exact ⟨rfl, rfl⟩

theorem goto_statement (h : goto q .statement = some next) :
    q = .statements ∧ next = .statement := by
  cases q <;> cases h
  exact ⟨rfl, rfl⟩

theorem goto_arguments (h : goto q .arguments = some next) :
    q = .openArguments ∧ next = .arguments := by
  cases q <;> cases h
  exact ⟨rfl, rfl⟩

theorem goto_term_of_expr (h : goto q .expr = some next) : goto q .term = some .term := by
  cases q <;> cases h <;> rfl

theorem goto_factor_of_term (h : goto q .term = some next) : goto q .factor = some .factor := by
  cases q <;> cases h <;> rfl

theorem action_expr (h : goto q .expr = some next) :
    action next .plus = .shift .plus ∧ action next .minus = .shift .minus := by
  cases q <;> cases h <;> exact ⟨rfl, rfl⟩

theorem action_term (h : goto q .term = some next) :
    action next .asterisk = .shift .times ∧ action next .slash = .shift .over := by
  cases q <;> cases h <;> exact ⟨rfl, rfl⟩

theorem action_factor (h : goto q .factor = some next) :
    action q .int = .shift .literal ∧ action q .ident = .shift .name ∧
      action q .minus = .shift .minusSign ∧ action q .leftParen = .shift .openGroup := by
  cases q <;> cases h <;> exact ⟨rfl, rfl, rfl, rfl⟩

end Gotos

end ShiftReduce.Calculator
