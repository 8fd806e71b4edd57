import ShiftReduce.Engine.Session

/-!
The push-driven engine. Tokens are posted one at a time. Each post is one transaction of the stack:
the reductions a token sets off, and the shift, acceptance or error that ends them, are committed
together or not at all. After a syntax error or an overflow the engine may recover: it goes back to
the most recent state on the stack that handles errors, drives the recovery token through it and
offers the offending token again, which is discarded if it still does not fit.
-/

namespace ShiftReduce.Engine

variable {S T N P V σ α : Type}

def fault (f : Fault) : Run S V σ α := throw (.raised f)

def underflow (requested : Nat) : Run S V σ α := do
  fault (.stack (.underflow requested (← get).stack.depth))

/-- The value of a read that its caller promises to be within bounds. -/
def within : Option α → Run S V σ α
  | some a => pure a
  | none => throw .crash

def setStack (stack : Stack (Frame S V)) : Run S V σ Unit := modify ({ · with stack })

def setFailed (failed : Bool) : Run S V σ Unit := modify ({ · with failed })

def rollback : Run S V σ Unit := modify fun s => { s with stack := s.stack.rollback }

def commit : Run S V σ Unit := modify fun s => { s with stack := s.stack.commit }

def count (f : Stats → Stats) : Run S V σ Unit := modify fun s => { s with stats := f s.stats }

def topState : Run S V σ S := do
  match (← get).stack.top? with
  | some frame => pure frame.state
  | none => underflow 1

def pop (n : Nat) : Run S V σ Unit := do
  match (← get).stack.pop n with
  | .ok stack => setStack stack
  | .error e => fault (.stack e)

def popElements : Nat → Run S V σ Unit
  | 0 => pure ()
  | n + 1 => do
    match (← get).stack.top? with
    | some frame =>
      pop (1 + frame.folded)
      popElements n
    | none => underflow 1

section Provided

variable (e : Engine S T N P V σ)

def notify (notice : Notice S T P V) : Run S V σ Unit :=
  modify fun s => { s with client := e.provider.notify notice s.client }

def callProvider (production : P) (args : Args S V) : Run S V σ V := fun s =>
  match e.provider.reduce production args s.client with
  | .ok value client => .ok value { s with client }
  | .error halt client => .error halt { s with client }

/-- Pushes a frame. On a full stack the provider is told and the session fails. -/
def push (frame : Frame S V) : Run S V σ Unit := do
  if e.table.hasState frame.state then
    match (← get).stack.push frame with
    | .ok stack => setStack stack
    | .error err =>
      e.notify (.stackOverflow err)
      setFailed true
  else throw .crash

def notifyLift (n : Nat) : Run S V σ Unit := do
  let missing := (← get).stack.missing n
  if missing = 0 then pure () else e.notify (.lifting missing)

def swap : Run S V σ Unit := do
  match (← get).stack.swap with
  | .ok stack =>
    e.notifyLift 2
    setStack stack
  | .error err => fault (.stack err)

def fold : Run S V σ Unit := do
  match (← get).stack.modifyTop? fun frame => { frame with folded := frame.folded + 1 } with
  | some stack =>
    e.notifyLift 1
    setStack stack
  | none => underflow 1

def goto (state : S) (lhs : N) : Run S V σ S :=
  if e.table.hasNonterminal lhs then
    match e.table.goto state lhs with
    | some next => do
      e.notify (.entering next)
      pure next
    | none => fault (.missingGoto (e.table.stateIndex state) (e.table.nonterminalName lhs))
  else throw .crash

def pushGoto (lhs : N) (value : V) : Run S V σ Unit := do
  let next ← e.goto (← topState) lhs
  e.push ⟨next, value, 0⟩

end Provided

variable [Inhabited V]

section Driving

variable (e : Engine S T N P V σ)

def cover (rule : Rule N) : Run S V σ Unit := do
  let stack := (← get).stack
  match extentBelow? stack stack.depth rule.size with
  | none => underflow (rule.size + 1)
  | some extent =>
    let below ← within (stack.nth? extent.stop)
    let next ← e.goto below.state rule.lhs
    e.push ⟨next, default, rule.size⟩

def applyRule (production : P) (rule : Rule N) : Run S V σ Unit :=
  match rule.reduction with
  | .action => do
    let value ← e.callProvider production ⟨(← get).stack, rule.size⟩
    popElements rule.size
    e.pushGoto rule.lhs value
  | .nothing => do
    popElements rule.size
    e.pushGoto rule.lhs default
  | .seqHead | .optNothing | .optJust => e.cover rule
  | .seqTrail => do
    e.swap
    e.fold
  | .seqTrail2 => do
    e.swap
    pop 1
    e.swap
    e.fold

def reduce (production : P) (rule : Rule N) : Run S V σ Unit := do
  let stack := (← get).stack
  if rule.reduction.isEbnf && !e.config.ebnf then
    fault (.ebnfDisabled rule.label)
  else if !rule.reduction.acceptsSize rule.size then
    fault (.badArity rule.label rule.reduction.label rule.size)
  else if 0 < rule.size && (extentBelow? stack stack.depth (rule.size - 1)).isNone then
    underflow rule.size
  else e.applyRule production rule

/-- One decision on a token; `true` when it settles the token. -/
def decideToken (token : T) (value : V) : Run S V σ Bool := do
  e.notify (.deciding (← get).stack token)
  let state ← topState
  match e.table.action state token with
  | .shift next =>
    e.notify (.shifting next)
    count fun s => { s with shifts := s.shifts + 1 }
    e.push ⟨next, value, 0⟩
    pure true
  | .reduce production =>
    let rule ← within (e.table.rule? production)
    e.notify (.reducing production rule.label)
    e.reduce production rule
    count fun s => { s with reductions := s.reductions + 1 }
    return (← get).failed
  | .accept =>
    e.notify .accepting
    modify fun s => { s with accepted := true, result := s.stack.top?.map Frame.value }
    pure true
  | .error =>
    count fun s => { s with errors := s.errors + 1 }
    e.notify (.syntaxError ⟨state, token, e.table.expected state⟩)
    setFailed true
    pure true

def driveWithin (token : T) (value : V) : Nat → Run S V σ Unit
  | 0 => throw .exhausted
  | steps + 1 => do
    if ← e.decideToken token value then pure () else driveWithin token value steps

def drive (token : T) (value : V) : Run S V σ Unit := do
  e.driveWithin token value (e.reach (← get).stack.depth)

/-- Pops elements until the most recent one handles errors, within `steps` elements; `false` when
none does. -/
def unwindWithin (token : T) : Nat → Run S V σ Bool
  | 0 => throw .exhausted
  | steps + 1 => do
    match (← get).stack.top? with
    | none =>
      e.notify (.unrecoverable token)
      pure false
    | some frame =>
      if e.table.handlesError frame.state then
        e.notify (.resuming frame.state)
        pure true
      else
        popElements 1
        unwindWithin token steps

def unwind (token : T) : Run S V σ Bool := do
  e.unwindWithin token ((← get).stack.depth + 1)

variable [DecidableEq T]

def repost (token : T) (value : V) : Run S V σ Unit := do
  e.notify (.reposting token)
  e.drive token value
  if (← get).failed then
    rollback
    if token = e.config.endToken then
      e.notify .endKept
    else
      e.notify (.discarding token)
      count fun s => { s with discarded := s.discarded + 1 }
      setFailed false
  else commit

/-- Recovers from a failure on `token`. The session stays failed when that is not possible. -/
def recover (token : T) (value : V) (recovery : T) : Run S V σ Unit := do
  count fun s => { s with recoveries := s.recoveries + 1 }
  rollback
  setFailed false
  if ← e.unwind recovery then
    e.drive recovery default
    if (← get).failed then
      e.notify (.recoveryRefused recovery)
      rollback
    else
      commit
      e.repost token value
  else
    rollback
    setFailed true

def settle (token : T) (value : V) : Run S V σ Unit := do
  count fun s => { s with tokens := s.tokens + 1 }
  rollback
  e.drive token value
  if (← get).failed then
    match e.config.recovery with
    | some recovery => e.recover token value recovery
    | none => rollback
  else commit

/-- Runs `body`; a fault takes back its transaction and fails the session. -/
def guarded (body : Run S V σ Unit) : Run S V σ Unit :=
  tryCatch body fun
    | .raised f => do
      e.notify (.aborting f)
      rollback
      setFailed true
      throw (.raised f)
    | halt => throw halt

def post (token : T) (value : V) : Run S V σ Bool := do
  if (← get).closed then fault .sessionClosed
  else
    e.guarded (e.settle token value)
    return (← get).closed

def postAll : List (T × V) → Run S V σ Bool
  | [] => pure false
  | (token, value) :: rest => do
    if ← e.post token value then pure true else postAll rest

end Driving

section Sessions

variable (e : Engine S T N P V σ)

def reset : Run S V σ Unit := do
  modify fun s => { s with
    accepted := false
    failed := false
    result := none
    stats := {}
    stack := s.stack.clear.rollback }
  e.push ⟨e.table.start, default, 0⟩
  commit

def blank (client : σ) : Session S V σ := ⟨.empty e.config.capacity, client, false, false, none, {}⟩

/-- The session of a new engine, which is given out once the storage of its stack is reserved. -/
def begin (client : σ) : EStateM.Result (Halt Fault) (Session S V σ) Unit := e.reset (e.blank client)

def reserve : Run S V σ Unit :=
  if Stack.reservable e.frameSize e.config.capacity then pure () else throw .crash

-- Of a crash nothing is kept, so it is all the same that the storage is asked for last.
def start (client : σ) : EStateM.Result (Halt Fault) (Session S V σ) Unit :=
  (e.reset >>= fun _ => e.reserve) (e.blank client)

def accepted? (s : Session S V σ) : Option V :=
  if s.accepted && !s.failed then s.result else none

/-- The accepted value, which is given out once. -/
def take : Run S V σ (Option V) := do
  let s ← get
  match accepted? s with
  | some value =>
    set { s with result := none }
    pure (some value)
  | none => pure none

def parse [DecidableEq T] (tokens : List (T × V)) : Run S V σ (Option V) := do
  e.reset
  let _ ← e.postAll tokens
  take

end Sessions

end ShiftReduce.Engine
