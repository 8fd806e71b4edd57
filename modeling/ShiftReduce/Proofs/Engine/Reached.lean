import ShiftReduce.Engine.Op
import ShiftReduce.Proofs.Engine.Base

namespace ShiftReduce

structure Session.Settled {S V σ : Type} (s : Session S V σ) : Prop where
  kept_eq : s.stack.kept = s.stack.base
  pending_eq : s.stack.pending = .empty

namespace Session.Settled

variable {S T N P V σ : Type} {s t : Session S V σ}

theorem frames_eq (h : s.Settled) : s.stack.frames = s.stack.base.items := by
  rw [Stack.frames, h.kept_eq, h.pending_eq]
  rfl

theorem pendingDepth_eq (h : s.Settled) : s.stack.pendingDepth = 0 := by
  rw [Stack.pendingDepth, h.pending_eq]
  rfl

theorem of_stack (h : s.Settled) (hstack : t.stack = s.stack) : t.Settled := by
  constructor
  · rw [hstack, h.kept_eq]
  · rw [hstack, h.pending_eq]

theorem rollback (s : Session S V σ) : s.rollback.Settled := ⟨rfl, rfl⟩

theorem commit (s : Session S V σ) : s.commit.Settled := ⟨rfl, rfl⟩

end Session.Settled

namespace Engine

variable {S T N P V σ α β : Type}

inductive Completes : EStateM.Result (Halt Fault) (Session S V σ) α → Session S V σ → Prop
  | answered {a t} : Completes (.ok a t) t
  | faulted {f t} : Completes (.error (.raised f) t) t

theorem Completes.final_eq {r : EStateM.Result (Halt Fault) (Session S V σ) α} {t : Session S V σ}
    (h : Completes r t) : final r = t := by
  cases h <;> rfl

theorem completes_of_isOk {r : EStateM.Result (Halt Fault) (Session S V σ) α} (h : isOk r = true) :
    Completes r (final r) := by
  cases r with
  | ok a s => exact .answered
  | error halt s => cases h

def KeepsSettled (x : Run S V σ α) : Prop :=
  ∀ s t : Session S V σ, s.Settled → Completes (x s) t → t.Settled

namespace KeepsSettled

theorem bind {x : Run S V σ α} {f : α → Run S V σ β} (hx : KeepsSettled x)
    (hf : ∀ a, KeepsSettled (f a)) : KeepsSettled (x >>= f) := by
  intro s t hs ht
  cases h : x s with
  | ok a u =>
    rw [bind_of_ok h] at ht
    exact hf a u t (hx s u hs (h ▸ .answered)) ht
  | error halt u =>
    rw [bind_of_error h] at ht
    cases ht
    exact hx s _ hs (h ▸ .faulted)

theorem get_bind {f : Session S V σ → Run S V σ β} (hf : ∀ s, KeepsSettled (f s)) :
    KeepsSettled (get >>= f) := fun s => hf s s

theorem map {x : Run S V σ α} (hx : KeepsSettled x) (f : α → β) : KeepsSettled (f <$> x) := by
  rw [map_eq_pure_bind]
  refine hx.bind fun a s t hs ht => ?_
  cases ht
  exact hs

theorem answer (a : α) : KeepsSettled (pure a : Run S V σ α) := by
  intro s t hs ht
  cases ht
  exact hs

end KeepsSettled

variable [Inhabited V] {e : Engine S T N P V σ}

theorem Reposts.settled {token : T} {value : V} {s t : Session S V σ}
    (h : Reposts e token value s (.ok () t)) : t.Settled := by
  cases h with
  | taken => exact .commit _
  | endKept => exact (Session.Settled.rollback _).of_stack rfl
  | discarded => exact (Session.Settled.rollback _).of_stack rfl

theorem Recovers.settled {token recovery : T} {value : V} {s t : Session S V σ}
    (h : Recovers e token value recovery s (.ok () t)) : t.Settled := by
  cases h with
  | unhandled => exact (Session.Settled.rollback _).of_stack rfl
  | refused => exact .rollback _
  | resumed hunwind hdrive hfailed hrepost => exact hrepost.settled

theorem Settles.settled {token : T} {value : V} {s t : Session S V σ}
    (h : Settles e token value s (.ok () t)) : t.Settled := by
  cases h with
  | taken => exact .commit _
  | failed => exact .rollback _
  | recovered hdrive hfailed hrecovery hrecover => exact hrecover.settled

variable [DecidableEq T]

theorem keepsSettled_post (token : T) (value : V) : KeepsSettled (e.post token value) := by
  intro s t hs ht
  have hcourse := post_course e token value s
  revert hcourse ht
  generalize e.post token value s = r
  intro ht hcourse
  cases hcourse with
  | refused =>
    cases ht
    exact hs
  | answered hopen hsettle =>
    cases ht
    exact hsettle.settled
  | aborted hopen hsettle =>
    cases ht
    exact (Session.Settled.rollback _).of_stack rfl
  | crashed => cases ht
  | exhausted => cases ht

theorem keepsSettled_postAll (tokens : List (T × V)) : KeepsSettled (e.postAll tokens) := by
  induction tokens with
  | nil => exact .answer false
  | cons token rest ih =>
    refine (keepsSettled_post token.1 token.2).bind fun closed => ?_
    cases closed with
    | true => exact .answer true
    | false => exact ih

def cleared (s : Session S V σ) : Session S V σ :=
  { s with
    accepted := false, failed := false, result := none, stats := {},
    stack := s.stack.clear.rollback }

omit [DecidableEq T] in
theorem reset_eq (s : Session S V σ) :
    e.reset s = (e.push ⟨e.table.start, default, 0⟩ >>= fun _ => Engine.commit) (cleared s) := rfl

omit [DecidableEq T] in
theorem reset_run (s : Session S V σ) (hstate : e.table.hasState e.table.start = true) :
    e.reset s = .ok () (Session.commit
      (match (cleared s).stack.push ⟨e.table.start, default, 0⟩ with
        | .ok stack => { cleared s with stack }
        | .error err => ((cleared s).tell e (.stackOverflow err)).fail true)) := by
  have hpush := e.push_run ⟨e.table.start, default, 0⟩ (cleared s) hstate
  rw [reset_eq]
  revert hpush
  cases (cleared s).stack.push ⟨e.table.start, default, 0⟩ <;> exact bind_of_ok

omit [DecidableEq T] in
theorem reset_capacity (e : Engine S T N P V σ) (s : Session S V σ) :
    (final (e.reset s)).stack.capacity = s.stack.capacity := by
  have hpush := KeepsBase.push e ⟨e.table.start, default, 0⟩ (cleared s)
  rw [reset_eq]
  cases h : e.push ⟨e.table.start, default, 0⟩ (cleared s) with
  | ok _ t =>
    rw [h] at hpush
    rw [bind_of_ok h]
    exact hpush.capacity_eq
  | error halt t =>
    rw [h] at hpush
    rw [bind_of_error h]
    exact hpush.capacity_eq

omit [DecidableEq T] in
theorem reset_settled {s t : Session S V σ} (h : Completes (e.reset s) t) : t.Settled := by
  by_cases hstate : e.table.hasState e.table.start = true
  · rw [reset_run s hstate] at h
    cases h
    exact .commit _
  · rw [reset_eq, bind_of_error (e.push_crash ⟨e.table.start, default, 0⟩ (cleared s) hstate)] at h
    cases h

structure Fresh (e : Engine S T N P V σ) (s : Session S V σ) : Prop where
  base_eq : s.stack.base.items = [⟨e.table.start, default, 0⟩]
  accepted_eq : s.accepted = false
  failed_eq : s.failed = false
  result_eq : s.result = none

omit [DecidableEq T] in
theorem reset_fresh (s : Session S V σ) (hstate : e.table.hasState e.table.start = true)
    (hroom : Stack.HasRoom s.stack.capacity 0) :
    ∃ t, e.reset s = .ok () t ∧ e.Fresh t ∧ t.stack.capacity = s.stack.capacity ∧
      t.client = s.client := by
  have hempty : (cleared s).stack.frames = [] := rfl
  have hroom : Stack.HasRoom (cleared s).stack.capacity (cleared s).stack.depth := hroom
  obtain ⟨stack, hpush, hstack⟩ :=
    Stack.push_of_room (a := (⟨e.table.start, default, 0⟩ : Frame S V)) hroom
  rw [reset_run s hstate, hpush]
  refine ⟨_, rfl, ⟨?_, rfl, rfl, rfl⟩, hstack.capacity_eq, rfl⟩
  rw [hempty] at hstack
  exact hstack.frames_eq

omit [Inhabited V] [DecidableEq T] in
theorem keepsSettled_take : KeepsSettled (take : Run S V σ (Option V)) := by
  intro s t hs ht
  rw [take_run] at ht
  split at ht
  · cases ht
    exact hs.of_stack rfl
  · cases ht
    exact hs

theorem keepsSettled_perform (op : Op T V) : KeepsSettled (e.perform op) := by
  cases op with
  | post token value => exact (keepsSettled_post token value).map _
  | postAll tokens => exact (keepsSettled_postAll tokens).map _
  | parse tokens =>
    refine KeepsSettled.map (.bind (fun s t hs ht => reset_settled ht) fun _ => ?_) _
    exact (keepsSettled_postAll tokens).bind fun _ => keepsSettled_take
  | reset => exact .bind (fun s t hs ht => reset_settled ht) fun _ => .answer _
  | accepted => exact .get_bind fun s => .answer _
  | take => exact keepsSettled_take.map _

omit [Inhabited V] [DecidableEq T] in
theorem reserve_run (h : Stack.reservable e.frameSize e.config.capacity = true)
    (s : Session S V σ) : e.reserve s = .ok () s := by
  rw [reserve, if_pos h]
  rfl

omit [Inhabited V] [DecidableEq T] in
theorem reserve_crash (h : Stack.reservable e.frameSize e.config.capacity = false)
    (s : Session S V σ) : e.reserve s = .error .crash s := by
  rw [reserve, if_neg (Bool.not_eq_true _ ▸ h)]
  rfl

section Starting

variable {client : σ} {s : Session S V σ}

omit [DecidableEq T] in
theorem start_of_begin (h : Stack.reservable e.frameSize e.config.capacity = true)
    (hbegin : e.begin client = .ok () s) : e.start client = .ok () s :=
  (bind_of_ok hbegin).trans (reserve_run h s)

omit [DecidableEq T] in
theorem of_start (h : e.start client = .ok () s) :
    e.begin client = .ok () s ∧ Stack.reservable e.frameSize e.config.capacity = true := by
  obtain ⟨_, t, hbegin, hreserve⟩ := exists_of_bind_ok h
  cases hroom : Stack.reservable e.frameSize e.config.capacity with
  | true =>
    rw [reserve_run hroom] at hreserve
    cases hreserve
    exact ⟨hbegin, rfl⟩
  | false =>
    rw [reserve_crash hroom] at hreserve
    cases hreserve

omit [DecidableEq T] in
theorem final_start (e : Engine S T N P V σ) (client : σ) :
    final (e.start client) = final (e.begin client) := by
  cases hbegin : e.begin client with
  | error halt t => exact congrArg final (bind_of_error hbegin)
  | ok _ t =>
    rw [show e.start client = e.reserve t from bind_of_ok hbegin]
    cases hroom : Stack.reservable e.frameSize e.config.capacity with
    | true => rw [reserve_run hroom]
    | false =>
      rw [reserve_crash hroom]
      rfl

omit [DecidableEq T] in
theorem completes_of_start (h : e.start client = .ok () s) :
    Completes (e.reset (e.blank client)) s := by
  rw [show e.reset (e.blank client) = .ok () s from (of_start h).1]
  exact .answered

end Starting

/-- The sessions that operations lead to, the first one being new. A fault is the answer of an
operation as well. Between operations the client may be exchanged. -/
inductive Reached (e : Engine S T N P V σ) : Session S V σ → Prop
  | start {client s} : e.start client = .ok () s → Reached e s
  | perform {s t} (op : Op T V) : Reached e s → Completes (e.perform op s) t → Reached e t
  | attend {s} (client : σ) : Reached e s → Reached e { s with client }

theorem Reached.settled {s : Session S V σ} (h : Reached e s) : s.Settled := by
  induction h with
  | start hstart => exact reset_settled (completes_of_start hstart)
  | perform op hs ht ih => exact keepsSettled_perform op _ _ ih ht
  | attend client hs ih => exact ih.of_stack rfl

end Engine

end ShiftReduce
