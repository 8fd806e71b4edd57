import ShiftReduce.Stack.Basic

/-!
Failures. A *fault* is an inconsistency that ends a session: a rule the table is wrong about, an
action that failed, a token after the end. Syntax errors and overflows are not faults, they are
outcomes of parsing.
-/

namespace ShiftReduce

inductive Fault : Type
  | stack (e : StackError)
  | missingGoto (state : Nat) (nonterminal : String)
  | badArity (rule reduction : String) (size : Nat)
  | ebnfDisabled (rule : String)
  | sessionClosed
  | action (text : String)
  deriving DecidableEq

def Fault.message : Fault → String
  | .stack e => e.message
  | .missingGoto state nonterminal => s!"no goto from state {state} on nonterminal {nonterminal}"
  | .badArity rule reduction size =>
    s!"production {rule} reduces with {reduction} but has {size} symbols"
  | .ebnfDisabled rule => s!"production {rule} needs EBNF support, which is disabled"
  | .sessionClosed => "parse session has ended; call reset before posting more tokens"
  | .action text => s!"semantic action failed: {text}"

inductive Halt (ε : Type) : Type
  | raised (e : ε)
  /-- It relied on a promise that was broken, such as an index within bounds. -/
  | crash
  | exhausted
  deriving DecidableEq

end ShiftReduce
