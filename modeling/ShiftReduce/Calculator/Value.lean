import ShiftReduce.Fault
import ShiftReduce.Numeral
import ShiftReduce.Text.Quoted

namespace ShiftReduce.Calculator

structure Span where
  start : Nat
  stop : Nat
  deriving DecidableEq

def Span.text (s : Span) : String := s!"{s.start}..{s.stop}"

structure Diagnostic where
  span : Span
  message : String
  deriving DecidableEq

def Diagnostic.text (d : Diagnostic) : String := s!"{d.span.text}: {d.message}"

inductive Error : Type
  | numeral (e : Numeral.Malformed)
  | character (span : Span) (text : String)
  | divisionByZero
  | overflow
  | unknownFunction (name : String)
  | arity (name expected : String) (got : Nat)
  | typeMismatch (expected found : String)
  | rejected (diagnostics : List Diagnostic)
  | engine (fault : Fault)
  deriving DecidableEq

namespace Error

def message : Error → String
  | .numeral e => s!"unable to parse ParseIntError \x7b kind: {e.name} \x7d"
  | .character span text => s!"unexpected character {Text.quote text} at {span.text}"
  | .divisionByZero => "division by zero"
  | .overflow => "arithmetic overflow"
  | .unknownFunction name => s!"unknown function {Text.quote name}"
  | .arity name expected got => s!"{name} expects {expected} argument(s), got {got}"
  | .typeMismatch expected found => s!"expected {expected}, found {found}"
  | .rejected diagnostics => s!"input rejected after {diagnostics.length} syntax error(s)"
  | .engine fault => s!"engine error: {fault.message}"

def cause? : Error → Option String
  | .numeral e => some e.message
  | .engine fault => some fault.message
  | _ => none

end Error

/-- What a frame of the parse stack carries. A statement that was skipped has no value. -/
inductive Value : Type
  | nothing
  | number (n : Int)
  | name (s : String)
  | statement (v : Option Int)
  | program (vs : List (Option Int))
  deriving DecidableEq

instance : Inhabited Value := ⟨.nothing⟩

namespace Value

def kind : Value → String
  | .nothing => "nothing"
  | .number _ => "number"
  | .name _ => "identifier"
  | .statement _ => "statement"
  | .program _ => "program"

def asNumber : Value → Except Error Int
  | .number n => .ok n
  | v => .error (.typeMismatch "number" v.kind)

def asStatement? : Value → Option (Option Int)
  | .statement v => some v
  | _ => none

def optionText : Option Int → String
  | some n => s!"Some({n})"
  | none => "None"

def text : Value → String
  | .nothing => "None"
  | .number n => s!"Number({n})"
  | .name s => s!"Ident({Text.quote s})"
  | .statement v => s!"Stmt({optionText v})"
  | .program vs => "Program([" ++ ", ".intercalate (vs.map optionText) ++ "])"

end Value

end ShiftReduce.Calculator
