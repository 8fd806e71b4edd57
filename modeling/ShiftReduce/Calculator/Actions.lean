import ShiftReduce.Provider
import ShiftReduce.Calculator.Automaton
import ShiftReduce.Calculator.Value

namespace ShiftReduce.Calculator

/-- An operation of a calculation with its operands. An argument of a call is a number or the error
that stands in its place. -/
inductive Call : Type
  | program (statements : List (Option Int))
  | statement (value : Int)
  | recovered
  | add (lhs rhs : Int)
  | sub (lhs rhs : Int)
  | mul (lhs rhs : Int)
  | div (lhs rhs : Int)
  | neg (operand : Int)
  | call (name : String) (arguments : List (Except Error Int))

abbrev EngineNotice := Notice State Terminal Production Value

inductive Event : Type
  | token (t : Terminal) (span : Span)
  | notice (n : EngineNotice) (span : Span)

abbrev Act (σ : Type) := EStateM Error σ

structure Actions (σ : Type) where
  add : Int → Int → Act σ Int
  sub : Int → Int → Act σ Int
  mul : Int → Int → Act σ Int
  div : Int → Int → Act σ Int
  neg : Int → Act σ Int
  call : String → List (Except Error Int) → Act σ Int
  program : List (Option Int) → Act σ (List (Option Int)) := pure
  statement : Int → Act σ (Option Int) := fun value => pure (some value)
  recovered : σ → Option Int × σ := fun s => (none, s)
  watch : Event → σ → σ := fun _ s => s

def Actions.perform {σ : Type} (actions : Actions σ) : Call → Act σ Value
  | .program statements => .program <$> actions.program statements
  | .statement value => .statement <$> actions.statement value
  | .recovered => fun s => let (v, s) := actions.recovered s; .ok (.statement v) s
  | .add lhs rhs => .number <$> actions.add lhs rhs
  | .sub lhs rhs => .number <$> actions.sub lhs rhs
  | .mul lhs rhs => .number <$> actions.mul lhs rhs
  | .div lhs rhs => .number <$> actions.div lhs rhs
  | .neg operand => .number <$> actions.neg operand
  | .call name arguments => .number <$> actions.call name arguments

end ShiftReduce.Calculator
