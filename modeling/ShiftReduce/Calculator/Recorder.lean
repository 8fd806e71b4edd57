import ShiftReduce.Calculator.Evaluator

namespace ShiftReduce.Calculator

structure Tape where
  calls : List Call := []
  events : List Event := []

namespace Tape

def record (call : Call) (tape : Tape) : Tape := { tape with calls := call :: tape.calls }

def note (event : Event) (tape : Tape) : Tape := { tape with events := event :: tape.events }

end Tape

structure Recorder where
  failStatement : Option Int := none
  failProgram : Bool := false
  recovered : Option Int := none

namespace Recorder

def answer {α : Type} (call : Call) (outcome : Except Error α) : Act Tape α := fun tape =>
  match outcome with
  | .ok a => .ok a (tape.record call)
  | .error e => .error e (tape.record call)

def statement (r : Recorder) (value : Int) : Except Error (Option Int) :=
  if r.failStatement = some value then .error .overflow
  else if value < 0 then .ok none
  else .ok (some value)

def program (r : Recorder) (statements : List (Option Int)) : Except Error (List (Option Int)) :=
  if r.failProgram then .error (.unknownFunction "program") else .ok statements.reverse

def actions (r : Recorder) : Actions Tape where
  add lhs rhs := answer (.add lhs rhs) (Evaluator.add lhs rhs)
  sub lhs rhs := answer (.sub lhs rhs) (Evaluator.sub lhs rhs)
  mul lhs rhs := answer (.mul lhs rhs) (Evaluator.mul lhs rhs)
  div lhs rhs := answer (.div lhs rhs) (Evaluator.div lhs rhs)
  neg operand := answer (.neg operand) (Evaluator.neg operand)
  call name arguments := answer (.call name arguments) (Evaluator.call name arguments)
  program statements := answer (.program statements) (r.program statements)
  statement value := answer (.statement value) (r.statement value)
  recovered tape := (r.recovered, tape.record .recovered)
  watch := Tape.note

end Recorder

end ShiftReduce.Calculator
