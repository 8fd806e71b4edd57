import ShiftReduce.Fault
import ShiftReduce.Frame

namespace ShiftReduce

structure SyntaxError (S T : Type) where
  state : S
  token : T
  expected : List T

inductive Notice (S T P V : Type) : Type
  | deciding (stack : Stack (Frame S V)) (token : T)
  | shifting (next : S)
  | reducing (production : P) (label : String)
  | entering (next : S)
  | accepting
  | syntaxError (e : SyntaxError S T)
  | stackOverflow (e : StackError)
  /-- Frames of the base became pending because one of them is to be written. -/
  | lifting (count : Nat)
  | aborting (fault : Fault)
  | unrecoverable (token : T)
  | resuming (state : S)
  | recoveryRefused (token : T)
  | reposting (token : T)
  | discarding (token : T)
  | endKept

structure Provider (S T P V σ : Type) where
  reduce : P → Args S V → EStateM (Halt Fault) σ V
  notify : Notice S T P V → σ → σ

end ShiftReduce
