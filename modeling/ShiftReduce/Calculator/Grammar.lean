import ShiftReduce.Table

namespace ShiftReduce.Calculator

inductive Terminal : Type
  | int
  | ident
  | plus
  | minus
  | asterisk
  | slash
  | leftParen
  | rightParen
  | comma
  | semicolon
  | eof
  | error
  deriving DecidableEq

namespace Terminal

def all : List Terminal :=
  [.int, .ident, .plus, .minus, .asterisk, .slash, .leftParen, .rightParen, .comma, .semicolon,
    .eof, .error]

def index (t : Terminal) : Nat := t.ctorIdx

def name : Terminal → String
  | .int => "Int"
  | .ident => "Ident"
  | .plus => "Plus"
  | .minus => "Minus"
  | .asterisk => "Asterisk"
  | .slash => "Slash"
  | .leftParen => "LeftParen"
  | .rightParen => "RightParen"
  | .comma => "Comma"
  | .semicolon => "Semicolon"
  | .eof => "End"
  | .error => "Error"

def label : Terminal → String
  | .int => "int"
  | .ident => "ident"
  | .plus => "+"
  | .minus => "-"
  | .asterisk => "*"
  | .slash => "/"
  | .leftParen => "("
  | .rightParen => ")"
  | .comma => ","
  | .semicolon => ";"
  | .eof => "end"
  | .error => "error"

end Terminal

inductive Nonterminal : Type
  | start
  | program
  | statements
  | statement
  | expr
  | term
  | factor
  | arguments
  deriving DecidableEq

namespace Nonterminal

def all : List Nonterminal :=
  [.start, .program, .statements, .statement, .expr, .term, .factor, .arguments]

def name : Nonterminal → String
  | .start => "Start"
  | .program => "Program"
  | .statements => "StmtSeq"
  | .statement => "Stmt"
  | .expr => "Expr"
  | .term => "Term"
  | .factor => "Factor"
  | .arguments => "ArgSeq"

end Nonterminal

inductive Production : Type
  | start
  | program
  | noStatement
  | nextStatement
  | evaluated
  | skipped
  | sum
  | difference
  | onlyTerm
  | product
  | quotient
  | onlyFactor
  | literal
  | group
  | negation
  | call
  | firstArgument
  | nextArgument
  | empty
  deriving DecidableEq

namespace Production

def all : List Production :=
  [.start, .program, .noStatement, .nextStatement, .evaluated, .skipped, .sum, .difference,
    .onlyTerm, .product, .quotient, .onlyFactor, .literal, .group, .negation, .call,
    .firstArgument, .nextArgument, .empty]

def name : Production → String
  | .start => "Start"
  | .program => "Program"
  | .noStatement => "StmtSeq1"
  | .nextStatement => "StmtSeq2"
  | .evaluated => "Stmt1"
  | .skipped => "Stmt2"
  | .sum => "Expr1"
  | .difference => "Expr2"
  | .onlyTerm => "Expr3"
  | .product => "Term1"
  | .quotient => "Term2"
  | .onlyFactor => "Term3"
  | .literal => "Factor1"
  | .group => "Factor2"
  | .negation => "Factor3"
  | .call => "Factor4"
  | .firstArgument => "ArgSeq1"
  | .nextArgument => "ArgSeq2"
  | .empty => "Stmt3"

/-- Statements and arguments are folded on the stack; every other rule has a value of its own. -/
def rule : Production → Rule Nonterminal
  | .start => ⟨"start", .start, 1, .nothing⟩
  | .program => ⟨"program", .program, 1, .action⟩
  | .noStatement => ⟨"stmt_seq1", .statements, 0, .seqHead⟩
  | .nextStatement => ⟨"stmt_seq2", .statements, 2, .seqTrail⟩
  | .evaluated => ⟨"stmt1", .statement, 2, .action⟩
  | .skipped => ⟨"stmt2", .statement, 2, .action⟩
  | .sum => ⟨"expr1", .expr, 3, .action⟩
  | .difference => ⟨"expr2", .expr, 3, .action⟩
  | .onlyTerm => ⟨"expr3", .expr, 1, .action⟩
  | .product => ⟨"term1", .term, 3, .action⟩
  | .quotient => ⟨"term2", .term, 3, .action⟩
  | .onlyFactor => ⟨"term3", .term, 1, .action⟩
  | .literal => ⟨"factor1", .factor, 1, .action⟩
  | .group => ⟨"factor2", .factor, 3, .action⟩
  | .negation => ⟨"factor3", .factor, 2, .action⟩
  | .call => ⟨"factor4", .factor, 4, .action⟩
  | .firstArgument => ⟨"arg_seq1", .arguments, 1, .seqHead⟩
  | .nextArgument => ⟨"arg_seq2", .arguments, 3, .seqTrail2⟩
  | .empty => ⟨"stmt3", .statement, 1, .nothing⟩

def row (p : Production) : String :=
  s!"Prod({p.rule.lhs.name}, {p.rule.size}, {p.rule.reduction.name}, \"{p.rule.label}\")"

end Production

end ShiftReduce.Calculator
