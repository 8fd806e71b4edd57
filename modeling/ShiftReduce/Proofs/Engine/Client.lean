import ShiftReduce.Proofs.Engine.Bounded

namespace ShiftReduce

section Results

variable {ε τ α : Type}

def outcome : EStateM.Result ε τ α → Except ε α
  | .ok a _ => .ok a
  | .error e _ => .error e

def remains : EStateM.Result ε τ α → τ
  | .ok _ t => t
  | .error _ t => t

end Results

namespace Engine

variable {S T N P V σ α β : Type}

structure Keeps (e : Engine S T N P V σ) (K : σ → Bool → Prop) : Prop where
  told : ∀ notice {c failed}, K c failed → K (e.provider.notify notice c) failed
  called : ∀ production args {c failed}, K c failed →
    K (remains (e.provider.reduce production args c)) failed
  overflowed : ∀ err {c failed}, K c failed → K (e.provider.notify (.stackOverflow err) c) true
  refused : ∀ err {c failed}, K c failed → K (e.provider.notify (.syntaxError err) c) true

def Kept (K : σ → Bool → Prop) (s : Session S V σ) : Prop := K s.client s.failed

namespace Keeps

variable {e : Engine S T N P V σ} {K : σ → Bool → Prop}

theorem never (e : Engine S T N P V σ) : e.Keeps fun _ _ => False :=
  ⟨fun _ _ _ h => h, fun _ _ _ _ h => h, fun _ _ _ h => h, fun _ _ _ h => h⟩

section Steps

theorem setStack (stack : Stack (Frame S V)) :
    Sustains (Kept K) (Engine.setStack stack : Run S V σ Unit) := fun _ hs => hs

theorem rollback : Sustains (Kept K) (Engine.rollback : Run S V σ Unit) := fun _ hs => hs

theorem commit : Sustains (Kept K) (Engine.commit : Run S V σ Unit) := fun _ hs => hs

theorem count (f : Stats → Stats) : Sustains (Kept K) (Engine.count f : Run S V σ Unit) :=
  fun _ hs => hs

theorem pop (n : Nat) : Sustains (Kept K) (Engine.pop n : Run S V σ Unit) := by
  apply Sustains.get_bind
  intro s
  split
  · exact setStack _
  · exact .halt _

theorem popElements (n : Nat) : Sustains (Kept K) (Engine.popElements n : Run S V σ Unit) := by
  induction n with
  | zero => exact .answer ()
  | succ n ih =>
    apply Sustains.get_bind
    intro s
    split
    · exact (pop _).bind fun _ => ih
    · exact .underflow 1

theorem take : Sustains (Kept K) (Engine.take : Run S V σ (Option V)) := by
  intro s hs
  rw [take_run]
  cases accepted? s <;> exact hs

end Steps

variable (h : e.Keeps K)

include h

theorem notify (notice : Notice S T P V) : Sustains (Kept K) (e.notify notice) :=
  fun _ hs => h.told notice hs

theorem callProvider (production : P) (args : Args S V) :
    Sustains (Kept K) (e.callProvider production args) := by
  intro s hs
  have hcalled := h.called production args hs
  rw [Engine.callProvider]
  cases hreduce : e.provider.reduce production args s.client <;> rw [hreduce] at hcalled <;>
    exact hcalled

theorem push (frame : Frame S V) : Sustains (Kept K) (e.push frame) := by
  intro s hs
  by_cases hstate : e.table.hasState frame.state = true
  · rw [e.push_run frame s hstate]
    cases s.stack.push frame with
    | ok stack => exact hs
    | error err => exact h.overflowed err hs
  · rw [e.push_crash frame s hstate]
    exact hs

theorem notifyLift (n : Nat) : Sustains (Kept K) (e.notifyLift n) := by
  apply Sustains.get_bind
  intro s
  dsimp only
  split
  · exact .answer ()
  · exact h.notify _

theorem swap : Sustains (Kept K) e.swap := by
  apply Sustains.get_bind
  intro s
  split
  · exact (h.notifyLift 2).bind fun _ => setStack _
  · exact .halt _

theorem fold : Sustains (Kept K) e.fold := by
  apply Sustains.get_bind
  intro s
  split
  · exact (h.notifyLift 1).bind fun _ => setStack _
  · exact .underflow 1

theorem goto (state : S) (lhs : N) : Sustains (Kept K) (e.goto state lhs) := by
  rw [Engine.goto]
  split
  · split
    · exact (h.notify _).bind fun _ => .answer _
    · exact .halt _
  · exact .halt _

theorem pushGoto (lhs : N) (value : V) : Sustains (Kept K) (e.pushGoto lhs value) :=
  Sustains.topState.bind fun state => (h.goto state lhs).bind fun _ => h.push _

theorem unwindWithin (token : T) (steps : Nat) :
    Sustains (Kept K) (e.unwindWithin token steps) := by
  induction steps with
  | zero => exact .halt _
  | succ steps ih =>
    apply Sustains.get_bind
    intro s
    split
    · exact (h.notify _).bind fun _ => .answer _
    · split
      · exact (h.notify _).bind fun _ => .answer _
      · exact (popElements 1).bind fun _ => ih

theorem unwind (token : T) : Sustains (Kept K) (e.unwind token) :=
  .get_bind fun _ => h.unwindWithin token _

variable [Inhabited V]

theorem cover (rule : Rule N) : Sustains (Kept K) (e.cover rule) := by
  apply Sustains.get_bind
  intro s
  dsimp only
  split
  · exact .underflow _
  · exact (Sustains.within _).bind fun below =>
      (h.goto below.state rule.lhs).bind fun _ => h.push _

theorem applyRule (production : P) (rule : Rule N) :
    Sustains (Kept K) (e.applyRule production rule) := by
  unfold Engine.applyRule
  split
  · exact .get_bind fun _ => (h.callProvider _ _).bind fun value =>
      (popElements _).bind fun _ => h.pushGoto _ value
  · exact (popElements _).bind fun _ => h.pushGoto _ _
  · exact h.cover rule
  · exact h.cover rule
  · exact h.cover rule
  · exact h.swap.bind fun _ => h.fold
  · exact h.swap.bind fun _ => (pop 1).bind fun _ => h.swap.bind fun _ => h.fold

theorem reduce (production : P) (rule : Rule N) :
    Sustains (Kept K) (e.reduce production rule) := by
  apply Sustains.get_bind
  intro s
  dsimp only
  split
  · exact .halt _
  split
  · exact .halt _
  split
  · exact .underflow _
  · exact h.applyRule production rule

theorem carryOut (token : T) (value : V) (state : S) :
    Sustains (Kept K) (e.carryOut token value state) := by
  unfold Engine.carryOut
  split
  · exact (h.notify _).bind fun _ => (count _).bind fun _ => (h.push _).bind fun _ => .answer _
  · refine (Sustains.within _).bind fun rule => (h.notify _).bind fun _ => ?_
    refine (h.reduce _ rule).bind fun _ => (count _).bind fun _ => ?_
    exact .get_bind fun s => .answer _
  · exact (h.notify _).bind fun _ s hs => hs
  · exact fun s hs => h.refused _ hs

theorem decideToken (token : T) (value : V) :
    Sustains (Kept K) (e.decideToken token value) := by
  rw [decideToken_eq]
  exact (Sustains.get_bind fun s => h.notify _).bind fun _ =>
    Sustains.topState.bind fun state => h.carryOut token value state

theorem driveWithin (token : T) (value : V) (steps : Nat) :
    Sustains (Kept K) (e.driveWithin token value steps) := by
  induction steps with
  | zero => exact .halt _
  | succ steps ih =>
    refine (h.decideToken token value).bind fun settled => ?_
    split
    · exact .answer ()
    · exact ih

theorem drive (token : T) (value : V) : Sustains (Kept K) (e.drive token value) :=
  .get_bind fun _ => h.driveWithin token value _

end Keeps

section Posts

variable [Inhabited V] [DecidableEq T] (e : Engine S T N P V σ)

def resolve (token : T) : Run S V σ Unit := do
  if (← get).failed then
    rollback
    if token = e.config.endToken then
      e.notify .endKept
    else
      e.notify (.discarding token)
      count fun s => { s with discarded := s.discarded + 1 }
      setFailed false
  else commit

def resume (token : T) (value : V) (recovery : T) : Run S V σ Unit := do
  if (← get).failed then
    e.notify (.recoveryRefused recovery)
    rollback
  else
    commit
    e.repost token value

def regain (token : T) (value : V) (recovery : T) (found : Bool) : Run S V σ Unit := do
  if found then
    e.drive recovery default
    e.resume token value recovery
  else
    rollback
    setFailed true

def respond (token : T) (value : V) : Run S V σ Unit := do
  if (← get).failed then
    match e.config.recovery with
    | some recovery => e.recover token value recovery
    | none => rollback
  else commit

theorem settle_eq (token : T) (value : V) (s : Session S V σ) :
    e.settle token value s = (e.drive token value >>= fun _ => e.respond token value) s.opened := rfl

theorem respond_of_failed (token : T) (value : V) {s : Session S V σ} (h : s.failed = true) :
    e.respond token value s =
      (match e.config.recovery with
        | some recovery => e.recover token value recovery
        | none => rollback) s := by
  rw [respond, get_bind, if_pos h]

theorem respond_of_open (token : T) (value : V) {s : Session S V σ} (h : s.failed = false) :
    e.respond token value s = .ok () s.commit := by
  rw [respond, get_bind, if_neg (Bool.not_eq_true _ ▸ h)]
  rfl

section Keeps

variable {e} {K : σ → Prop} (h : e.Keeps fun c _ => K c)

omit [Inhabited V] [DecidableEq T] in
theorem setFailed_keeps (failed : Bool) :
    Sustains (Kept fun c _ => K c) (setFailed failed : Run S V σ Unit) := fun _ hs => hs

include h

omit [Inhabited V] in
theorem resolve_keeps (token : T) : Sustains (Kept fun c _ => K c) (e.resolve token) := by
  refine .get_bind fun s => ?_
  split
  · refine Keeps.rollback.bind fun _ => ?_
    split
    · exact h.notify _
    · exact (h.notify _).bind fun _ => (Keeps.count _).bind fun _ => setFailed_keeps false
  · exact Keeps.commit

theorem repost_keeps (token : T) (value : V) :
    Sustains (Kept fun c _ => K c) (e.repost token value) :=
  (h.notify _).bind fun _ => (h.drive token value).bind fun _ => resolve_keeps h token

theorem resume_keeps (token : T) (value : V) (recovery : T) :
    Sustains (Kept fun c _ => K c) (e.resume token value recovery) := by
  refine .get_bind fun s => ?_
  split
  · exact (h.notify _).bind fun _ => Keeps.rollback
  · exact Keeps.commit.bind fun _ => repost_keeps h token value

theorem regain_keeps (token : T) (value : V) (recovery : T) (found : Bool) :
    Sustains (Kept fun c _ => K c) (e.regain token value recovery found) := by
  unfold regain
  split
  · exact (h.drive recovery default).bind fun _ => resume_keeps h token value recovery
  · exact Keeps.rollback.bind fun _ => setFailed_keeps true

theorem recover_keeps (token : T) (value : V) (recovery : T) :
    Sustains (Kept fun c _ => K c) (e.recover token value recovery) :=
  (Keeps.count _).bind fun _ => Keeps.rollback.bind fun _ => (setFailed_keeps false).bind fun _ =>
    (h.unwind recovery).bind (regain_keeps h token value recovery)

theorem respond_keeps (token : T) (value : V) :
    Sustains (Kept fun c _ => K c) (e.respond token value) := by
  refine .get_bind fun s => ?_
  split
  · split
    · exact recover_keeps h token value _
    · exact Keeps.rollback
  · exact Keeps.commit

theorem settle_keeps (token : T) (value : V) :
    Sustains (Kept fun c _ => K c) (e.settle token value) :=
  (Keeps.count _).bind fun _ => Keeps.rollback.bind fun _ => (h.drive token value).bind fun _ =>
    respond_keeps h token value

omit [Inhabited V] [DecidableEq T] in
theorem guarded_keeps {body : Run S V σ Unit} (hbody : Sustains (Kept fun c _ => K c) body) :
    Sustains (Kept fun c _ => K c) (e.guarded body) := by
  intro s hs
  have hleft := hbody s hs
  rw [guarded_run]
  generalize body s = r at hleft
  rcases r with ⟨_, t⟩ | ⟨f | _ | _, t⟩
  · exact hleft
  · exact h.notify (.aborting f) t hleft
  · exact hleft
  · exact hleft

theorem post_keeps (token : T) (value : V) :
    Sustains (Kept fun c _ => K c) (e.post token value) := by
  refine .get_bind fun s => ?_
  split
  · exact .halt _
  · exact (guarded_keeps h (settle_keeps h token value)).bind fun _ => .get_bind fun s => .answer _

theorem postAll_keeps (tokens : List (T × V)) :
    Sustains (Kept fun c _ => K c) (e.postAll tokens) := by
  induction tokens with
  | nil => exact .answer false
  | cons posted rest ih =>
    refine (post_keeps h posted.1 posted.2).bind fun closed => ?_
    split
    · exact .answer true
    · exact ih

omit [DecidableEq T] in
theorem reset_keeps : Sustains (Kept fun c _ => K c) e.reset := fun s hs =>
  ((h.push ⟨e.table.start, default, 0⟩).bind fun _ => Keeps.commit) (cleared s) hs

end Keeps

end Posts

end Engine

end ShiftReduce
