import ShiftReduce.Calculator.Client
import ShiftReduce.Calculator.Evaluator
import ShiftReduce.Calculator.Lexer

namespace ShiftReduce.Calculator

/-- What a well-formed source comes to: the result of each statement that is not empty, `none` for a
skipped one, and the diagnostics of what was skipped. -/
structure Outcome where
  results : List (Option Int)
  diagnostics : List Diagnostic
  deriving DecidableEq

variable {σ : Type}

abbrev Session (σ : Type) := ShiftReduce.Session State Value (Client σ)

abbrev Calculation (σ : Type) := EStateM (Halt Error) (Session σ)

def defaultConfig : Config Terminal := { Config.ofTable table with ebnf := true }

def modifyClient (f : Client σ → Client σ) : Calculation σ Unit :=
  modify fun s => { s with client := f s.client }

/-- The error behind a fault: the one that was kept, if there is one. -/
def surface {α : Type} (f : Fault) (s : Session σ) : EStateM.Result (Halt Error) (Session σ) α :=
  match s.client.failure with
  | some e => .error (.raised e) { s with client.failure := none }
  | none => .error (.raised (.engine f)) s

def liftRun {α : Type} (run : Run State Value (Client σ) α) : Calculation σ α := fun s =>
  match run s with
  | .ok a s => .ok a s
  | .error (.raised f) s => surface f s
  | .error .crash s => .error .crash s
  | .error .exhausted s => .error .exhausted s

section Parsing

variable (actions : Actions σ) (config : Config Terminal)

def postToken (t : Token) : Calculation σ Bool := do
  modifyClient fun c => { c with user := actions.watch (.token t.terminal t.span) c.user }
  modifyClient fun c => { c with span := t.span }
  liftRun ((engine actions config).post t.terminal t.value)

/-- Posts lexemes until the session closes. An error among them ends the calculation at once. -/
def feed : List Lexeme → Calculation σ Unit
  | [] => pure ()
  | .error e :: _ => throw (.raised e)
  | .ok t :: rest => do
    if ← postToken actions config t then pure () else feed rest

def conclude : Calculation σ Outcome := do
  let diagnostics := (← get).client.diagnostics
  modifyClient fun c => { c with diagnostics := [] }
  match ← liftRun Engine.take with
  | some (.program results) => pure ⟨results, diagnostics⟩
  | some v => throw (.raised (.typeMismatch "program" v.kind))
  | none => throw (.raised (.rejected diagnostics))

def parse (source : String) : Calculation σ Outcome := do
  liftRun (engine actions config).reset
  modifyClient Client.begin
  feed actions config (lexemes source)
  conclude

def start (user : σ) : EStateM.Result (Halt Fault) (Session σ) Unit :=
  (engine actions config).start (Client.new user)

end Parsing

end ShiftReduce.Calculator
