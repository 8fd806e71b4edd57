import ShiftReduce.Calculator.Parser
import ShiftReduce.CommandLine.Reading

namespace ShiftReduce.CommandLine

open Calculator

structure Report where
  exit : Nat
  stdout : String
  stderr : String
  deriving DecidableEq

def lines (ls : List String) : String := "".intercalate (ls.map (· ++ "\n"))

def errorText (message : String) (cause : Option String) : String :=
  lines (s!"Error: {message}" :: match cause with
    | some cause => ["", "Caused by:", s!"    {cause}"]
    | none => [])

def diagnosticLines (diagnostics : List Diagnostic) : String :=
  lines (diagnostics.map fun d => s!"error: {d.text}")

def resultLine : Option Int → String
  | some n => toString n
  | none => "<error>"

namespace Report

def failure (stderr : String) : Report := ⟨1, "", stderr⟩

def ofError : Error → Report
  | .rejected diagnostics =>
    failure (diagnosticLines diagnostics ++ errorText "input rejected" none)
  | e => failure (errorText e.message e.cause?)

def ofOutcome (outcome : Outcome) : Report where
  exit := 0
  stdout := lines (outcome.results.map resultLine)
  stderr := diagnosticLines outcome.diagnostics

def ofReadError (origin : Origin) (e : ReadError) : Report :=
  failure (errorText origin.complaint (some e.message))

end Report

def Invocation.config (inv : Invocation) : Config Terminal :=
  { defaultConfig with
    recovery := if inv.noRecovery then none else defaultConfig.recovery
    capacity := inv.capacity }

/-- Evaluates a source as an invocation asks. There is no report when the stack that it asks for
cannot be reserved. -/
def evaluate? (inv : Invocation) (source : String) : Option Report :=
  match start Evaluator.actions inv.config () with
  | .error _ _ => none
  | .ok _ session =>
    match parse Evaluator.actions inv.config source session with
    | .ok outcome _ => some (.ofOutcome outcome)
    | .error (.raised e) _ => some (.ofError e)
    | .error _ _ => none

def report? (inv : Invocation) : Except ReadError String → Option Report
  | .ok source => evaluate? inv source
  | .error e => some (.ofReadError inv.origin e)

end ShiftReduce.CommandLine
