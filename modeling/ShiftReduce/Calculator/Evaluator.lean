import ShiftReduce.Calculator.Actions

namespace ShiftReduce.Calculator.Evaluator

def checked (n : Int) : Except Error Int := if InRange n then .ok n else .error .overflow

def add (lhs rhs : Int) : Except Error Int := checked (lhs + rhs)

def sub (lhs rhs : Int) : Except Error Int := checked (lhs - rhs)

def mul (lhs rhs : Int) : Except Error Int := checked (lhs * rhs)

def div (lhs rhs : Int) : Except Error Int :=
  if rhs = 0 then .error .divisionByZero else checked (lhs.tdiv rhs)

def neg (operand : Int) : Except Error Int := checked (-operand)

def abs (arguments : List (Except Error Int)) : Except Error Int :=
  match arguments with
  | [argument] => do checked (← argument).natAbs
  | _ => .error (.arity "abs" "1" arguments.length)

def extremum (name : String) (choose : Int → Int → Int) (arguments : List (Except Error Int)) :
    Except Error Int := do
  match ← arguments.mapM id with
  | [] => .error (.arity name "at least 1" 0)
  | n :: ns => return ns.foldl choose n

def sumFrom (total : Int) : List (Except Error Int) → Except Error Int
  | [] => .ok total
  | argument :: rest => do sumFrom (← add total (← argument)) rest

def sum (arguments : List (Except Error Int)) : Except Error Int :=
  if arguments.isEmpty then .error (.arity "sum" "at least 1" 0) else sumFrom 0 arguments

def call (name : String) (arguments : List (Except Error Int)) : Except Error Int :=
  match name with
  | "abs" => abs arguments
  | "min" => extremum "min" min arguments
  | "max" => extremum "max" max arguments
  | "sum" => sum arguments
  | _ => .error (.unknownFunction name)

def actions {σ : Type} : Actions σ where
  add lhs rhs := liftExcept (Evaluator.add lhs rhs)
  sub lhs rhs := liftExcept (Evaluator.sub lhs rhs)
  mul lhs rhs := liftExcept (Evaluator.mul lhs rhs)
  div lhs rhs := liftExcept (Evaluator.div lhs rhs)
  neg operand := liftExcept (Evaluator.neg operand)
  call name arguments := liftExcept (Evaluator.call name arguments)
where
  liftExcept {α : Type} : Except Error α → Act σ α
    | .ok a => pure a
    | .error e => throw e

end ShiftReduce.Calculator.Evaluator
