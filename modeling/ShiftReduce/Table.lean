namespace ShiftReduce

/-- What reducing by a rule does to the stack. The last five serve repetition and optionality: they
keep the elements on the stack, folded under an accumulator, instead of building a container. -/
inductive Reduction : Type
  | nothing
  | action
  | seqHead
  | seqTrail
  | seqTrail2
  | optNothing
  | optJust
  deriving DecidableEq

namespace Reduction

def all : List Reduction :=
  [.nothing, .action, .seqHead, .seqTrail, .seqTrail2, .optNothing, .optJust]

def label : Reduction → String
  | .nothing => "nothing"
  | .action => "action"
  | .seqHead => "seq_head"
  | .seqTrail => "seq_trail"
  | .seqTrail2 => "seq_trail2"
  | .optNothing => "opt_nothing"
  | .optJust => "opt_just"

def name : Reduction → String
  | .nothing => "Nothing"
  | .action => "Action"
  | .seqHead => "SeqHead"
  | .seqTrail => "SeqTrail"
  | .seqTrail2 => "SeqTrail2"
  | .optNothing => "OptNothing"
  | .optJust => "OptJust"

def isEbnf : Reduction → Bool
  | .nothing | .action => false
  | _ => true

def acceptsSize (size : Nat) : Reduction → Bool
  | .nothing | .action => true
  | .seqHead => size ≤ 1
  | .seqTrail => size == 2
  | .seqTrail2 => size == 3
  | .optNothing => size == 0
  | .optJust => size == 1

end Reduction

inductive Action (S P : Type) : Type
  | error
  | accept
  | shift (next : S)
  | reduce (production : P)
  deriving DecidableEq

def Action.isError {S P : Type} : Action S P → Bool
  | .error => true
  | _ => false

structure Rule (N : Type) where
  label : String
  lhs : N
  size : Nat
  reduction : Reduction

structure Table (S T N P : Type) where
  start : S
  action : S → T → Action S P
  goto : S → N → Option S
  /-- The rule of a production, for every production the table declares. -/
  rule? : P → Option (Rule N)
  handlesError : S → Bool
  terminals : List T
  endToken : T
  errorToken : Option T
  stateIndex : S → Nat
  nonterminalName : N → String
  hasState : S → Bool
  hasNonterminal : N → Bool

def Table.expected {S T N P : Type} (table : Table S T N P) (state : S) : List T :=
  table.terminals.filter fun t => !(table.action state t).isError

end ShiftReduce
