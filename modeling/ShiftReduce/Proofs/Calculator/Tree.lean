import ShiftReduce.Proofs.Calculator.Proper

namespace ShiftReduce.Calculator

abbrev Word := List (Terminal × Value)

inductive Tree : Nonterminal → Type
  | program : Tree .statements → Tree .program
  | noStatement : Tree .statements
  | nextStatement : Tree .statements → Tree .statement → Tree .statements
  | evaluated : Tree .expr → Tree .statement
  | empty : Tree .statement
  | sum : Tree .expr → Tree .term → Tree .expr
  | difference : Tree .expr → Tree .term → Tree .expr
  | onlyTerm : Tree .term → Tree .expr
  | product : Tree .term → Tree .factor → Tree .term
  | quotient : Tree .term → Tree .factor → Tree .term
  | onlyFactor : Tree .factor → Tree .term
  | literal : Int → Tree .factor
  | group : Tree .expr → Tree .factor
  | negation : Tree .factor → Tree .factor
  | call : String → Tree .arguments → Tree .factor
  | firstArgument : Tree .expr → Tree .arguments
  | nextArgument : Tree .arguments → Tree .expr → Tree .arguments

structure Algebra where
  add : Int → Int → Int
  sub : Int → Int → Int
  mul : Int → Int → Int
  div : Int → Int → Int
  neg : Int → Int
  call : String → List Int → Int
  statement : Int → Option Int

namespace Tree

def yield {n : Nonterminal} : Tree n → Word
  | .program ss => ss.yield
  | .noStatement => []
  | .nextStatement ss s => ss.yield ++ s.yield
  | .evaluated e => e.yield ++ [(.semicolon, .nothing)]
  | .empty => [(.semicolon, .nothing)]
  | .sum e t => e.yield ++ (.plus, .nothing) :: t.yield
  | .difference e t => e.yield ++ (.minus, .nothing) :: t.yield
  | .onlyTerm t => t.yield
  | .product t f => t.yield ++ (.asterisk, .nothing) :: f.yield
  | .quotient t f => t.yield ++ (.slash, .nothing) :: f.yield
  | .onlyFactor f => f.yield
  | .literal n => [(.int, .number n)]
  | .group e => (.leftParen, .nothing) :: (e.yield ++ [(.rightParen, .nothing)])
  | .negation f => (.minus, .nothing) :: f.yield
  | .call name es =>
    (.ident, .name name) :: (.leftParen, .nothing) :: (es.yield ++ [(.rightParen, .nothing)])
  | .firstArgument e => e.yield
  | .nextArgument es e => es.yield ++ (.comma, .nothing) :: e.yield

def eval (a : Algebra) {n : Nonterminal} : Tree n → n.Denotation
  | .program ss => List.filterMap id (ss.eval a)
  | .noStatement => []
  | .nextStatement ss s => List.append (ss.eval a) [s.eval a]
  | .evaluated e => some (a.statement (e.eval a))
  | .empty => none
  | .sum e t => a.add (e.eval a) (t.eval a)
  | .difference e t => a.sub (e.eval a) (t.eval a)
  | .onlyTerm t => t.eval a
  | .product t f => a.mul (t.eval a) (f.eval a)
  | .quotient t f => a.div (t.eval a) (f.eval a)
  | .onlyFactor f => f.eval a
  | .literal n => n
  | .group e => e.eval a
  | .negation f => a.neg (f.eval a)
  | .call name es => a.call name (es.eval a)
  | .firstArgument e => [e.eval a]
  | .nextArgument es e => List.append (es.eval a) [e.eval a]

end Tree

end ShiftReduce.Calculator
