import ShiftReduce.Table
import ShiftReduce.Engine.Log
import ShiftReduce.Tabular.Recipe

namespace ShiftReduce

structure Tabular where
  tokens : Nat
  start : Nat
  endToken : Nat
  errorToken : Option Nat
  resuming : List Nat
  actions : List (List (Action Nat Nat))
  gotos : List (List (Option Nat))
  rules : List (Rule Nat × Recipe)

namespace Tabular

def maxStates : Nat := 64

def maxTokens : Nat := 16

def maxNonterminals : Nat := 16

def maxProductions : Nat := 32

variable (t : Tabular)

def action (state token : Nat) : Action Nat Nat := ((t.actions[state]?.getD [])[token]?).getD .error

def goto (state nonterminal : Nat) : Option Nat := ((t.gotos[state]?.getD [])[nonterminal]?).join

def rule? (production : Nat) : Option (Rule Nat) :=
  if production < maxProductions then t.rules[production]?.map Prod.fst else none

def table : Table Nat Nat Nat Nat where
  start := t.start
  action := t.action
  goto := t.goto
  rule? := t.rule?
  handlesError := t.resuming.contains
  terminals := List.range (min t.tokens maxTokens)
  endToken := t.endToken
  errorToken := t.errorToken
  stateIndex := id
  nonterminalName n := s!"N{n}"
  hasState s := s < maxStates
  hasNonterminal n := n < maxNonterminals

def value (production : Nat) (args : Args Nat Datum) : Except (Halt Fault) Datum :=
  match t.rules[production]? with
  | some (_, recipe) => recipe.value args
  | none => .error .crash

def names : Names Nat Nat Nat Datum where
  state s := s!"S{s}"
  token n := s!"T{n}"
  production p := s!"P{p}"
  value := Datum.text

end Tabular

end ShiftReduce
