import ShiftReduce.Engine.Basic
import ShiftReduce.Calculator.Actions

namespace ShiftReduce.Calculator

structure Client (σ : Type) where
  user : σ
  span : Span
  diagnostics : List Diagnostic
  failure : Option Error

namespace Client

variable {σ : Type}

def new (user : σ) : Client σ := ⟨user, ⟨0, 0⟩, [], none⟩

def begin (c : Client σ) : Client σ := new c.user

def report (message : String) (c : Client σ) : Client σ :=
  { c with diagnostics := c.diagnostics ++ [⟨c.span, message⟩] }

end Client

/-- What a reduction comes to: a copy of a value that is there, or an operation. -/
inductive Request : Type
  | copy (v : Value)
  | perform (call : Call)

abbrev Operands := Args State Value

namespace Request

variable (args : Operands)

def number? (i : Nat) : Option (Except Error Int) := (args.get? i).map Value.asNumber

def binary? (make : Int → Int → Call) : Option (Except Error Request) := do
  let lhs ← number? args 0
  let rhs ← number? args 2
  some (do return .perform (make (← lhs) (← rhs)))

def unary? (make : Int → Call) (i : Nat) : Option (Except Error Request) := do
  let operand ← number? args i
  some (do return .perform (make (← operand)))

def copy? (i : Nat) : Option (Except Error Request) := do
  let v ← args.get? i
  some (.ok (.copy v))

def call? : Option (Except Error Request) := do
  match ← args.get? 0 with
  | .name name =>
    let arguments ← args.sequence? 2
    some (.ok (.perform (.call name (arguments.map Value.asNumber))))
  | v => some (.error (.typeMismatch "identifier" v.kind))

def program? : Option (Except Error Request) := do
  let statements ← args.sequence? 0
  some (.ok (.perform (.program (statements.filterMap Value.asStatement?))))

/-- The request of a production; `none` for one that has no value of its own, or whose operands are
not there. -/
def of? : Production → Option (Except Error Request)
  | .program => program? args
  | .evaluated => unary? args .statement 0
  | .skipped => some (.ok (.perform .recovered))
  | .sum => binary? args .add
  | .difference => binary? args .sub
  | .product => binary? args .mul
  | .quotient => binary? args .div
  | .negation => unary? args .neg 1
  | .onlyTerm | .onlyFactor | .literal => copy? args 0
  | .group => copy? args 1
  | .call => call? args
  | .start | .noStatement | .nextStatement | .empty | .firstArgument | .nextArgument => none

end Request

def diagnosis (e : SyntaxError State Terminal) : String :=
  let expected := " ".intercalate (e.expected.map Terminal.label)
  s!"unexpected {e.token.label}, expected one of: {expected}"

def overflowDiagnosis : String := "expression nested too deeply"

variable {σ : Type}

def Client.reduce (actions : Actions σ) (production : Production) (args : Operands) :
    EStateM (Halt Fault) (Client σ) Value := fun c =>
  match Request.of? args production with
  | none => .error .crash c
  | some (.error e) => refuse e c
  | some (.ok (.copy v)) => .ok v c
  | some (.ok (.perform call)) =>
    match actions.perform call c.user with
    | .ok v user => .ok v { c with user }
    | .error e user => refuse e { c with user }
where
  refuse (e : Error) (c : Client σ) : EStateM.Result (Halt Fault) (Client σ) Value :=
    .error (.raised (.action e.message)) { c with failure := some e }

def Client.notify (actions : Actions σ) (notice : EngineNotice) (c : Client σ) : Client σ :=
  let c := { c with user := actions.watch (.notice notice c.span) c.user }
  match notice with
  | .syntaxError e => c.report (diagnosis e)
  | .stackOverflow _ => c.report overflowDiagnosis
  | _ => c

def provider (actions : Actions σ) : Provider State Terminal Production Value (Client σ) where
  reduce := Client.reduce actions
  notify := Client.notify actions

/-- The calculator's engine. A token takes at most four reductions for each frame on the stack. -/
def engine (actions : Actions σ) (config : Config Terminal) :
    Engine State Terminal Nonterminal Production Value (Client σ) where
  table := table
  provider := provider actions
  config := config
  reach depth := 4 * depth + 1

end ShiftReduce.Calculator
