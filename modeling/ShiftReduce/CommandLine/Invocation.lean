/-!
The command line: `[-i FILE] [--no-recovery] [--stack-capacity N] [SOURCE]`. Each option may be given
once, an input file and a source exclude each other, and after `--` everything is a source. The value
of an option is attached to it or is the next argument, unless that looks like an option.
-/

namespace ShiftReduce.CommandLine

structure Invocation where
  input : Option String := none
  source : Option String := none
  noRecovery : Bool := false
  capacity : Option Nat := none
  deriving DecidableEq

namespace Invocation

def maxCapacity : Nat := UInt64.size - 1

def readCapacity? (text : String) : Option Nat :=
  let digits := match text.toList with
    | '+' :: cs => cs
    | cs => cs
  if digits.isEmpty || !digits.all Char.isDigit then none
  else
    let n := Nat.ofDigitChars 10 digits 0
    if n ≤ maxCapacity then some n else none

def setInput? (path : String) (inv : Invocation) : Option Invocation :=
  if inv.input.isSome then none else some { inv with input := some path }

def setSource? (source : String) (inv : Invocation) : Option Invocation :=
  if inv.source.isSome then none else some { inv with source := some source }

def setNoRecovery? (inv : Invocation) : Option Invocation :=
  if inv.noRecovery then none else some { inv with noRecovery := true }

def setCapacity? (text : String) (inv : Invocation) : Option Invocation :=
  if inv.capacity.isSome then none
  else (readCapacity? text).map fun n => { inv with capacity := some n }

inductive Demand : Type
  | change (f : Invocation → Option Invocation)
  | valued (f : String → Invocation → Option Invocation)

def long? (body : List Char) : Option Demand :=
  let name := String.ofList (body.takeWhile (· != '='))
  let attached := match body.dropWhile (· != '=') with
    | _ :: value => some (String.ofList value)
    | [] => none
  match name, attached with
  | "input", some value => some (.change (setInput? value))
  | "input", none => some (.valued setInput?)
  | "stack-capacity", some value => some (.change (setCapacity? value))
  | "stack-capacity", none => some (.valued setCapacity?)
  | "no-recovery", none => some (.change setNoRecovery?)
  | _, _ => none

def demand? (arg : String) : Option Demand :=
  match arg.toList with
  | '-' :: '-' :: body => long? body
  | ['-', 'i'] => some (.valued setInput?)
  | '-' :: 'i' :: '=' :: value => some (.change (setInput? (String.ofList value)))
  | '-' :: 'i' :: value => some (.change (setInput? (String.ofList value)))
  | '-' :: _ :: _ => none
  | _ => some (.change (setSource? arg))

def looksLikeOption (arg : String) : Bool :=
  match arg.toList with
  | '-' :: _ :: _ => true
  | _ => false

def readSources? : Invocation → List String → Option Invocation
  | inv, [] => some inv
  | inv, arg :: args => do readSources? (← inv.setSource? arg) args

def readArgs? : Invocation → List String → Option Invocation
  | inv, [] => some inv
  | inv, "--" :: args => readSources? inv args
  | inv, arg :: args =>
    match demand? arg, args with
    | some (.change f), args => do readArgs? (← f inv) args
    | some (.valued f), value :: args =>
      if looksLikeOption value then none else do readArgs? (← f value inv) args
    | some (.valued _), [] => none
    | none, _ => none

def ofArgs? (args : List String) : Option Invocation := do
  let inv ← readArgs? {} args
  if inv.input.isSome && inv.source.isSome then none else some inv

end Invocation

inductive Origin : Type
  | inline (source : String)
  | file (path : String)
  | standardInput
  deriving DecidableEq

def Invocation.origin (inv : Invocation) : Origin :=
  match inv.source, inv.input with
  | some source, _ => .inline source
  | none, some "-" => .standardInput
  | none, some path => .file path
  | none, none => .standardInput

end ShiftReduce.CommandLine
