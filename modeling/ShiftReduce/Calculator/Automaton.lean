import ShiftReduce.Calculator.Grammar

/-!
The automaton of the calculator's grammar. A state is named for what was read last, and where that
does not tell it, for what comes next.
-/

namespace ShiftReduce.Calculator

inductive State : Type
  | start
  | accepting
  | statements
  | skipping
  | emptyStatement
  | literal
  | openGroup
  | minusSign
  | name
  | statement
  | expression
  | term
  | factor
  | skipped
  | groupedExpression
  | negated
  | openArguments
  | closedStatement
  | plus
  | minus
  | times
  | over
  | closedGroup
  | arguments
  | firstArgument
  | sumTerm
  | differenceTerm
  | productFactor
  | quotientFactor
  | closedArguments
  | comma
  | nextArgument
  deriving DecidableEq

namespace State

def all : List State :=
  [.start, .accepting, .statements, .skipping, .emptyStatement, .literal, .openGroup, .minusSign,
    .name, .statement, .expression, .term, .factor, .skipped, .groupedExpression, .negated,
    .openArguments, .closedStatement, .plus, .minus, .times, .over, .closedGroup, .arguments,
    .firstArgument, .sumTerm, .differenceTerm, .productFactor, .quotientFactor, .closedArguments,
    .comma, .nextArgument]

def index (s : State) : Nat := s.ctorIdx

def label (s : State) : String := s!"StateID({s.index})"

end State

abbrev Decision := Action State Production

def beginFactor : Terminal → Decision
  | .int => .shift .literal
  | .ident => .shift .name
  | .minus => .shift .minusSign
  | .leftParen => .shift .openGroup
  | _ => .error

def endStatement (p : Production) : Terminal → Decision
  | .int | .ident | .minus | .leftParen | .semicolon | .eof | .error => .reduce p
  | _ => .error

def endFactor (p : Production) : Terminal → Decision
  | .plus | .minus | .asterisk | .slash | .rightParen | .comma | .semicolon => .reduce p
  | _ => .error

def endTerm (p : Production) : Terminal → Decision
  | .asterisk => .shift .times
  | .slash => .shift .over
  | .plus | .minus | .rightParen | .comma | .semicolon => .reduce p
  | _ => .error

def afterExpression (close : Terminal → Decision) : Terminal → Decision
  | .plus => .shift .plus
  | .minus => .shift .minus
  | t => close t

def endArgument (p : Production) : Terminal → Decision
  | .rightParen | .comma => .reduce p
  | _ => .error

def expect (wanted : Terminal) (next : State) (t : Terminal) : Decision :=
  if t = wanted then .shift next else .error

def action : State → Terminal → Decision
  | .start => endStatement .noStatement
  | .accepting => fun t => if t = .eof then .accept else .error
  | .statements => fun
    | .semicolon => .shift .emptyStatement
    | .eof => .reduce .program
    | .error => .shift .skipping
    | t => beginFactor t
  | .skipping => expect .semicolon .skipped
  | .emptyStatement => endStatement .empty
  | .literal => endFactor .literal
  | .openGroup | .minusSign | .openArguments | .plus | .minus | .times | .over | .comma =>
    beginFactor
  | .name => expect .leftParen .openArguments
  | .statement => endStatement .nextStatement
  | .expression => afterExpression (expect .semicolon .closedStatement)
  | .term => endTerm .onlyTerm
  | .factor => endFactor .onlyFactor
  | .skipped => endStatement .skipped
  | .groupedExpression => afterExpression (expect .rightParen .closedGroup)
  | .negated => endFactor .negation
  | .closedStatement => endStatement .evaluated
  | .closedGroup => endFactor .group
  | .arguments => fun
    | .rightParen => .shift .closedArguments
    | .comma => .shift .comma
    | _ => .error
  | .firstArgument => afterExpression (endArgument .firstArgument)
  | .sumTerm => endTerm .sum
  | .differenceTerm => endTerm .difference
  | .productFactor => endFactor .product
  | .quotientFactor => endFactor .quotient
  | .closedArguments => endFactor .call
  | .nextArgument => afterExpression (endArgument .nextArgument)

def goto : State → Nonterminal → Option State
  | .start, .program => some .accepting
  | .start, .statements => some .statements
  | .statements, .statement => some .statement
  | .statements, .expr => some .expression
  | .openGroup, .expr => some .groupedExpression
  | .openArguments, .arguments => some .arguments
  | .openArguments, .expr => some .firstArgument
  | .comma, .expr => some .nextArgument
  | .plus, .term => some .sumTerm
  | .minus, .term => some .differenceTerm
  | .statements, .term | .openGroup, .term | .openArguments, .term | .comma, .term => some .term
  | .minusSign, .factor => some .negated
  | .times, .factor => some .productFactor
  | .over, .factor => some .quotientFactor
  | .statements, .factor | .openGroup, .factor | .openArguments, .factor | .comma, .factor
  | .plus, .factor | .minus, .factor => some .factor
  | _, _ => none

def handlesError (s : State) : Bool := s = .statements

def table : Table State Terminal Nonterminal Production where
  start := .start
  action := action
  goto := goto
  rule? p := some p.rule
  handlesError := handlesError
  terminals := Terminal.all
  endToken := .eof
  errorToken := some .error
  stateIndex := State.index
  nonterminalName := Nonterminal.name
  hasState _ := true
  hasNonterminal _ := true

def decisionText : Decision → String
  | .error => "Error"
  | .accept => "Accept"
  | .shift next => s!"Shift({next.label})"
  | .reduce production => s!"Reduce({production.name})"

end ShiftReduce.Calculator
