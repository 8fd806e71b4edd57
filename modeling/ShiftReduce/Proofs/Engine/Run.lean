import ShiftReduce.Engine.Basic

namespace ShiftReduce

namespace Session

variable {S T N P V σ : Type}

def rollback (s : Session S V σ) : Session S V σ := { s with stack := s.stack.rollback }

def commit (s : Session S V σ) : Session S V σ := { s with stack := s.stack.commit }

def tally (f : Stats → Stats) (s : Session S V σ) : Session S V σ := { s with stats := f s.stats }

def fail (failed : Bool) (s : Session S V σ) : Session S V σ := { s with failed }

def tell (e : Engine S T N P V σ) (notice : Notice S T P V) (s : Session S V σ) : Session S V σ :=
  { s with client := e.provider.notify notice s.client }

def lifting (e : Engine S T N P V σ) (n : Nat) (s : Session S V σ) : Session S V σ :=
  if s.stack.missing n = 0 then s else s.tell e (.lifting (s.stack.missing n))

def reducing (e : Engine S T N P V σ) (token : T) (production : P) (rule : Rule N)
    (s : Session S V σ) : Session S V σ :=
  (s.tell e (.deciding s.stack token)).tell e (.reducing production rule.label)

end Session

namespace Engine

variable {S T N P V σ α β : Type}

section Sequence

variable {ε τ : Type} {x : EStateM ε τ α} {f : α → EStateM ε τ β} {s t : τ}

theorem bind_of_ok {a : α} (h : x s = .ok a t) : (x >>= f) s = f a t := by
  simp only [bind, EStateM.bind, h]

theorem bind_of_error {e : ε} (h : x s = .error e t) : (x >>= f) s = .error e t := by
  simp only [bind, EStateM.bind, h]

theorem exists_of_bind_ok {b : β} (h : (x >>= f) s = .ok b t) :
    ∃ a u, x s = .ok a u ∧ f a u = .ok b t := by
  cases hx : x s with
  | ok a u =>
    rw [bind_of_ok hx] at h
    exact ⟨a, u, rfl, h⟩
  | error halt u =>
    rw [bind_of_error hx] at h
    cases h

end Sequence

theorem get_bind (f : Session S V σ → Run S V σ β) (s : Session S V σ) :
    (get >>= f) s = f s s := rfl

theorem rollback_run (s : Session S V σ) : rollback s = .ok () s.rollback := rfl

theorem topState_run {s : Session S V σ} {frame : Frame S V} {fs : List (Frame S V)}
    (h : s.stack.frames = frame :: fs) : topState s = .ok frame.state s := by
  have htop : s.stack.top? = some frame := by rw [Stack.top?_eq, h, List.head?_cons]
  rw [topState, get_bind, htop]
  rfl

theorem topState_bare {s : Session S V σ} (h : s.stack.frames = []) :
    topState s = .error (.raised (.stack (.underflow 1 0))) s := by
  have hdepth : s.stack.depth = 0 := by rw [← Stack.length_frames, h, List.length_nil]
  rw [topState, get_bind, Stack.top?_eq, h, ← hdepth]
  rfl

theorem pop_run (n : Nat) (s : Session S V σ) :
    pop n s = match s.stack.pop n with
      | .ok stack => .ok () { s with stack }
      | .error e => .error (.raised (.stack e)) s := by
  rw [pop, get_bind]
  cases s.stack.pop n <;> rfl

theorem take_run (s : Session S V σ) :
    take s = match accepted? s with
      | some value => .ok (some value) { s with result := none }
      | none => .ok none s := by
  rw [take, get_bind]
  cases accepted? s <;> rfl

section Provided

variable (e : Engine S T N P V σ)

theorem push_run (frame : Frame S V) (s : Session S V σ) (h : e.table.hasState frame.state) :
    e.push frame s = match s.stack.push frame with
      | .ok stack => .ok () { s with stack }
      | .error err => .ok () ((s.tell e (.stackOverflow err)).fail true) := by
  rw [push, if_pos h, get_bind]
  cases s.stack.push frame <;> rfl

theorem push_crash (frame : Frame S V) (s : Session S V σ) (h : ¬ e.table.hasState frame.state) :
    e.push frame s = .error .crash s := by
  rw [push, if_neg h]
  rfl

theorem notifyLift_run (n : Nat) (s : Session S V σ) :
    e.notifyLift n s = .ok () (s.lifting e n) := by
  rw [notifyLift, get_bind, Session.lifting]
  by_cases h : s.stack.missing n = 0
  · rw [if_pos h, if_pos h]
    rfl
  · rw [if_neg h, if_neg h]
    rfl

theorem swap_run (s : Session S V σ) :
    e.swap s = match s.stack.swap with
      | .ok stack => .ok () { s.lifting e 2 with stack }
      | .error err => .error (.raised (.stack err)) s := by
  rw [swap, get_bind]
  cases s.stack.swap with
  | ok stack =>
    dsimp only
    rw [bind_of_ok (e.notifyLift_run 2 s)]
    rfl
  | error err => rfl

theorem fold_run (s : Session S V σ) :
    e.fold s =
      match s.stack.modifyTop? fun frame => { frame with folded := frame.folded + 1 } with
      | some stack => .ok () { s.lifting e 1 with stack }
      | none => underflow 1 s := by
  rw [fold, get_bind]
  cases s.stack.modifyTop? fun frame => { frame with folded := frame.folded + 1 } with
  | some stack =>
    dsimp only
    rw [bind_of_ok (e.notifyLift_run 1 s)]
    rfl
  | none => rfl

theorem goto_run {state next : S} {lhs : N} (s : Session S V σ) (hlhs : e.table.hasNonterminal lhs)
    (h : e.table.goto state lhs = some next) :
    e.goto state lhs s = .ok next (s.tell e (.entering next)) := by
  rw [goto, if_pos hlhs, h]
  rfl

theorem guarded_run (body : Run S V σ Unit) (s : Session S V σ) :
    e.guarded body s = match body s with
      | .error (.raised f) t => .error (.raised f) ((t.tell e (.aborting f)).rollback.fail true)
      | r => r := by
  have hcatch : e.guarded body s = EStateM.tryCatch body _ s := rfl
  rw [hcatch]
  delta EStateM.tryCatch
  rcases body s with ⟨_, t⟩ | ⟨_ | _ | _, t⟩ <;> rfl

end Provided

end Engine

end ShiftReduce
