import ShiftReduce.Proofs.Engine.Course
import ShiftReduce.Proofs.Stack.Write

namespace ShiftReduce.Engine

variable {S T N P V σ α β : Type}

def final {ε : Type} : EStateM.Result ε (Session S V σ) α → Session S V σ
  | .ok _ s => s
  | .error _ s => s

def isOk {ε : Type} : EStateM.Result ε (Session S V σ) α → Bool
  | .ok _ _ => true
  | .error _ _ => false

theorem eq_ok_of_isOk {ε : Type} {r : EStateM.Result ε (Session S V σ) α} (h : isOk r = true) :
    ∃ a, r = .ok a (final r) := by
  cases r with
  | ok a s => exact ⟨a, rfl⟩
  | error halt s => cases h

theorem final_bind {ε : Type} (x : EStateM ε (Session S V σ) α)
    (f : α → EStateM ε (Session S V σ) β) (s : Session S V σ) :
    final ((x >>= f) s) = final (x s) ∨ ∃ a, final ((x >>= f) s) = final (f a (final (x s))) := by
  cases h : x s with
  | ok a t =>
    rw [bind_of_ok h]
    exact .inr ⟨a, rfl⟩
  | error e t =>
    rw [bind_of_error h]
    exact .inl rfl

structure SameBase (s t : Session S V σ) : Prop where
  base_eq : t.stack.base = s.stack.base
  capacity_eq : t.stack.capacity = s.stack.capacity

namespace SameBase

variable {s t u : Session S V σ}

theorem refl (s : Session S V σ) : SameBase s s := ⟨rfl, rfl⟩

theorem trans (h : SameBase s t) (k : SameBase t u) : SameBase s u :=
  ⟨k.base_eq.trans h.base_eq, k.capacity_eq.trans h.capacity_eq⟩

theorem of_stack (h : t.stack = s.stack) : SameBase s t := by
  constructor <;> rw [h]

theorem of_became {frames : List (Frame S V)} (h : s.stack.Became frames t.stack) :
    SameBase s t := ⟨h.base_eq, h.capacity_eq⟩

end SameBase

def KeepsBase (x : Run S V σ α) : Prop := ∀ s, SameBase s (final (x s))

namespace KeepsBase

theorem bind {x : Run S V σ α} {f : α → Run S V σ β} (hx : KeepsBase x)
    (hf : ∀ a, KeepsBase (f a)) : KeepsBase (x >>= f) := by
  intro s
  rcases final_bind x f s with h | ⟨a, h⟩
  · rw [h]
    exact hx s
  · rw [h]
    exact (hx s).trans (hf a _)

theorem get_bind {f : Session S V σ → Run S V σ β} (hf : ∀ s, KeepsBase (f s)) :
    KeepsBase (get >>= f) := fun s => hf s s

theorem answer (a : α) : KeepsBase (pure a : Run S V σ α) := .refl

theorem halt (halt : Halt Fault) : KeepsBase (throw halt : Run S V σ α) := .refl

theorem underflow (n : Nat) : KeepsBase (Engine.underflow n : Run S V σ α) := .refl

theorem within (a : Option α) : KeepsBase (Engine.within a : Run S V σ α) := by
  cases a <;> exact .refl

theorem setFailed (failed : Bool) : KeepsBase (Engine.setFailed failed : Run S V σ Unit) :=
  fun _ => ⟨rfl, rfl⟩

theorem count (f : Stats → Stats) : KeepsBase (Engine.count f : Run S V σ Unit) :=
  fun _ => ⟨rfl, rfl⟩

theorem topState : KeepsBase (Engine.topState : Run S V σ S) := by
  apply get_bind
  intro s
  split
  · exact answer _
  · exact underflow 1

theorem pop (n : Nat) : KeepsBase (Engine.pop n : Run S V σ Unit) := by
  intro s
  rw [pop_run]
  rcases Nat.lt_or_ge s.stack.depth n with hlt | hle
  · rw [Stack.pop_of_lt hlt]
    exact .refl s
  · obtain ⟨stack, hpop, hstack⟩ := Stack.pop_of_le hle
    rw [hpop]
    exact .of_became hstack

theorem popElements (n : Nat) : KeepsBase (Engine.popElements n : Run S V σ Unit) := by
  induction n with
  | zero => exact answer ()
  | succ n ih =>
    apply get_bind
    intro s
    split
    · exact (pop _).bind fun _ => ih
    · exact underflow 1

section Provided

variable (e : Engine S T N P V σ)

theorem notify (notice : Notice S T P V) : KeepsBase (e.notify notice) := fun _ => ⟨rfl, rfl⟩

theorem callProvider (production : P) (args : Args S V) :
    KeepsBase (e.callProvider production args) := by
  intro s
  rw [Engine.callProvider]
  split <;> exact ⟨rfl, rfl⟩

theorem push (frame : Frame S V) : KeepsBase (e.push frame) := by
  intro s
  by_cases hstate : e.table.hasState frame.state
  · rw [e.push_run frame s hstate]
    rcases Stack.hasRoom_or_full s.stack.capacity s.stack.depth with hroom | ⟨n, hn, hfull⟩
    · obtain ⟨stack, hpush, hstack⟩ := Stack.push_of_room (a := frame) hroom
      rw [hpush]
      exact .of_became hstack
    · rw [Stack.push_of_full hn hfull]
      exact ⟨rfl, rfl⟩
  · rw [e.push_crash frame s hstate]
    exact .refl s

theorem swap : KeepsBase e.swap := by
  intro s
  rw [e.swap_run]
  match hframes : s.stack.frames with
  | a :: b :: fs =>
    obtain ⟨stack, hswap, hstack⟩ := Stack.swap_of_cons hframes
    rw [hswap]
    exact .of_became hstack
  | [] | [_] =>
    have hlt : s.stack.depth < 2 := by
      rw [← Stack.length_frames, hframes]
      simp
    rw [Stack.swap_of_lt hlt]
    exact .refl s

theorem fold : KeepsBase e.fold := by
  intro s
  rw [e.fold_run]
  cases hframes : s.stack.frames with
  | nil =>
    rw [Stack.modifyTop?_of_nil hframes]
    exact underflow 1 s
  | cons frame fs =>
    obtain ⟨stack, hmodify, hstack⟩ := Stack.modifyTop?_of_cons hframes
    rw [hmodify]
    exact .of_became hstack

theorem goto (state : S) (lhs : N) : KeepsBase (e.goto state lhs) := by
  rw [Engine.goto]
  split
  · split
    · exact (notify e _).bind fun _ => answer _
    · exact halt _
  · exact halt _

theorem pushGoto (lhs : N) (value : V) : KeepsBase (e.pushGoto lhs value) :=
  topState.bind fun state => (goto e state lhs).bind fun _ => push e _

theorem unwindWithin (token : T) (steps : Nat) : KeepsBase (e.unwindWithin token steps) := by
  induction steps with
  | zero => exact halt _
  | succ steps ih =>
    apply get_bind
    intro s
    split
    · exact (notify e _).bind fun _ => answer _
    · split
      · exact (notify e _).bind fun _ => answer _
      · exact (popElements 1).bind fun _ => ih

theorem unwind (token : T) : KeepsBase (e.unwind token) :=
  get_bind fun _ => unwindWithin e token _

end Provided

section Driving

variable [Inhabited V] (e : Engine S T N P V σ)

theorem cover (rule : Rule N) : KeepsBase (e.cover rule) := by
  apply get_bind
  intro s
  dsimp only
  split
  · exact underflow _
  · exact (within _).bind fun below => (goto e below.state rule.lhs).bind fun _ => push e _

theorem applyRule (production : P) (rule : Rule N) : KeepsBase (e.applyRule production rule) := by
  rw [Engine.applyRule]
  split
  · apply get_bind
    intro s
    exact (callProvider e production _).bind fun value =>
      (popElements rule.size).bind fun _ => pushGoto e rule.lhs value
  · exact (popElements rule.size).bind fun _ => pushGoto e rule.lhs default
  · exact cover e rule
  · exact cover e rule
  · exact cover e rule
  · exact (swap e).bind fun _ => fold e
  · exact (swap e).bind fun _ => (pop 1).bind fun _ => (swap e).bind fun _ => fold e

theorem reduce (production : P) (rule : Rule N) : KeepsBase (e.reduce production rule) := by
  apply get_bind
  intro s
  dsimp only
  split
  · exact halt _
  · split
    · exact halt _
    · split
      · exact underflow _
      · exact applyRule e production rule

theorem decideToken (token : T) (value : V) : KeepsBase (e.decideToken token value) := by
  apply get_bind
  intro s
  refine (notify e _).bind fun _ => topState.bind fun state => ?_
  split
  · exact (notify e _).bind fun _ => (count _).bind fun _ => (push e _).bind fun _ => answer _
  · refine (within _).bind fun rule => (notify e _).bind fun _ => ?_
    refine (reduce e _ rule).bind fun _ => (count _).bind fun _ => ?_
    exact get_bind fun s => answer _
  · exact (notify e _).bind fun _ s => ⟨rfl, rfl⟩
  · exact (count _).bind fun _ => (notify e _).bind fun _ => (setFailed true).bind fun _ => answer _

theorem driveWithin (token : T) (value : V) (steps : Nat) :
    KeepsBase (e.driveWithin token value steps) := by
  induction steps with
  | zero => exact halt _
  | succ steps ih =>
    refine (decideToken e token value).bind fun settled => ?_
    split
    · exact answer ()
    · exact ih

theorem drive (token : T) (value : V) : KeepsBase (e.drive token value) :=
  get_bind fun _ => driveWithin e token value _

end Driving

end KeepsBase

section Capacity

variable [Inhabited V] {e : Engine S T N P V σ} {token recovery : T} {value : V}
  {s : Session S V σ} {r : EStateM.Result (Halt Fault) (Session S V σ) Unit}

theorem drive_capacity (h : e.drive token value s = r) :
    (final r).stack.capacity = s.stack.capacity := by
  rw [← h]
  exact (KeepsBase.drive e token value s).capacity_eq

omit [Inhabited V] in
theorem unwind_capacity {r : EStateM.Result (Halt Fault) (Session S V σ) Bool}
    (h : e.unwind token s = r) : (final r).stack.capacity = s.stack.capacity := by
  rw [← h]
  exact (KeepsBase.unwind e token s).capacity_eq

theorem Reposts.capacity_eq (h : Reposts e token value s r) :
    (final r).stack.capacity = s.stack.capacity := by
  cases h with
  | halted hdrive | taken hdrive | endKept hdrive | discarded hdrive =>
    have hdriven := drive_capacity hdrive
    exact hdriven

theorem Recovers.capacity_eq (h : Recovers e token value recovery s r) :
    (final r).stack.capacity = s.stack.capacity := by
  cases h with
  | unwindHalted hunwind | unhandled hunwind =>
    have hunwound := unwind_capacity hunwind
    exact hunwound
  | halted hunwind hdrive | refused hunwind hdrive =>
    have hdriven := drive_capacity hdrive
    exact hdriven.trans (unwind_capacity hunwind)
  | resumed hunwind hdrive _ hreposts =>
    have hdriven := drive_capacity hdrive
    exact (hreposts.capacity_eq.trans hdriven).trans (unwind_capacity hunwind)

theorem Settles.capacity_eq (h : Settles e token value s r) :
    (final r).stack.capacity = s.stack.capacity := by
  cases h with
  | halted hdrive | taken hdrive | failed hdrive =>
    have hdriven := drive_capacity hdrive
    exact hdriven
  | recovered hdrive _ _ hrecovers =>
    have hdriven := drive_capacity hdrive
    exact hrecovers.capacity_eq.trans hdriven

theorem post_capacity [DecidableEq T] (e : Engine S T N P V σ) (token : T) (value : V)
    (s : Session S V σ) : (final (e.post token value s)).stack.capacity = s.stack.capacity := by
  have hcourse := post_course e token value s
  generalize e.post token value s = r at hcourse
  cases hcourse with
  | refused => rfl
  | answered _ hsettles | aborted _ hsettles | crashed _ hsettles | exhausted _ hsettles =>
    exact hsettles.capacity_eq

end Capacity

end ShiftReduce.Engine
