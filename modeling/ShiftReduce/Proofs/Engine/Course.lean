import ShiftReduce.Proofs.Engine.Run

/-!
The courses a post can take. A post drives its token; if that fails it may unwind the stack, drive
the recovery token and offer the token again. `post_course` lists where each course ends and what
it leaves; nothing later opens these functions again.
-/

namespace ShiftReduce

namespace Session

variable {S V σ : Type}

def opened (s : Session S V σ) : Session S V σ :=
  (s.tally fun stats => { stats with tokens := stats.tokens + 1 }).rollback

def reopened (s : Session S V σ) : Session S V σ :=
  ((s.tally fun stats => { stats with recoveries := stats.recoveries + 1 }).rollback).fail false

end Session

namespace Engine

variable {S T N P V σ α β : Type}

section Courses

variable [Inhabited V] (e : Engine S T N P V σ)

inductive Reposts (token : T) (value : V) (s : Session S V σ) :
    EStateM.Result (Halt Fault) (Session S V σ) Unit → Prop
  | halted {halt t} : e.drive token value (s.tell e (.reposting token)) = .error halt t →
      Reposts token value s (.error halt t)
  | taken {t} : e.drive token value (s.tell e (.reposting token)) = .ok () t → t.failed = false →
      Reposts token value s (.ok () t.commit)
  | endKept {t} : e.drive token value (s.tell e (.reposting token)) = .ok () t → t.failed = true →
      token = e.config.endToken → Reposts token value s (.ok () (t.rollback.tell e .endKept))
  | discarded {t} : e.drive token value (s.tell e (.reposting token)) = .ok () t →
      t.failed = true → token ≠ e.config.endToken →
      Reposts token value s (.ok () (((t.rollback.tell e (.discarding token)).tally
        fun stats => { stats with discarded := stats.discarded + 1 }).fail false))

inductive Recovers (token : T) (value : V) (recovery : T) (s : Session S V σ) :
    EStateM.Result (Halt Fault) (Session S V σ) Unit → Prop
  | unwindHalted {halt t} : e.unwind recovery s.reopened = .error halt t →
      Recovers token value recovery s (.error halt t)
  | unhandled {t} : e.unwind recovery s.reopened = .ok false t →
      Recovers token value recovery s (.ok () (t.rollback.fail true))
  | halted {u halt t} : e.unwind recovery s.reopened = .ok true u →
      e.drive recovery default u = .error halt t → Recovers token value recovery s (.error halt t)
  | refused {u t} : e.unwind recovery s.reopened = .ok true u →
      e.drive recovery default u = .ok () t → t.failed = true →
      Recovers token value recovery s (.ok () (t.tell e (.recoveryRefused recovery)).rollback)
  | resumed {u t r} : e.unwind recovery s.reopened = .ok true u →
      e.drive recovery default u = .ok () t → t.failed = false →
      Reposts e token value t.commit r → Recovers token value recovery s r

inductive Settles (token : T) (value : V) (s : Session S V σ) :
    EStateM.Result (Halt Fault) (Session S V σ) Unit → Prop
  | halted {halt t} : e.drive token value s.opened = .error halt t →
      Settles token value s (.error halt t)
  | taken {t} : e.drive token value s.opened = .ok () t → t.failed = false →
      Settles token value s (.ok () t.commit)
  | failed {t} : e.drive token value s.opened = .ok () t → t.failed = true →
      e.config.recovery = none → Settles token value s (.ok () t.rollback)
  | recovered {t recovery r} : e.drive token value s.opened = .ok () t → t.failed = true →
      e.config.recovery = some recovery → Recovers e token value recovery t r →
      Settles token value s r

inductive Posts (token : T) (value : V) (s : Session S V σ) :
    EStateM.Result (Halt Fault) (Session S V σ) Bool → Prop
  | refused : s.closed = true → Posts token value s (.error (.raised .sessionClosed) s)
  | answered {t} : s.closed = false → Settles e token value s (.ok () t) →
      Posts token value s (.ok t.closed t)
  | aborted {f t} : s.closed = false → Settles e token value s (.error (.raised f) t) →
      Posts token value s (.error (.raised f) ((t.tell e (.aborting f)).rollback.fail true))
  | crashed {t} : s.closed = false → Settles e token value s (.error .crash t) →
      Posts token value s (.error .crash t)
  | exhausted {t} : s.closed = false → Settles e token value s (.error .exhausted t) →
      Posts token value s (.error .exhausted t)

section Known

variable {e} {token recovery : T} {value : V} {s t u : Session S V σ}
  {r : EStateM.Result (Halt Fault) (Session S V σ) Unit}

theorem Reposts.eq_halted {halt : Halt Fault} (h : Reposts e token value s r)
    (hdrive : e.drive token value (s.tell e (.reposting token)) = .error halt t) :
    r = .error halt t := by
  cases h with
  | halted hdrive' =>
    cases hdrive.symm.trans hdrive'
    rfl
  | taken hdrive' | endKept hdrive' | discarded hdrive' => cases hdrive.symm.trans hdrive'

theorem Reposts.eq_taken (h : Reposts e token value s r)
    (hdrive : e.drive token value (s.tell e (.reposting token)) = .ok () t)
    (hopen : t.failed = false) : r = .ok () t.commit := by
  cases h with
  | halted hdrive' => cases hdrive.symm.trans hdrive'
  | taken hdrive' =>
    cases hdrive.symm.trans hdrive'
    rfl
  | endKept hdrive' hfailed | discarded hdrive' hfailed =>
    cases hdrive.symm.trans hdrive'
    cases hopen.symm.trans hfailed

theorem Reposts.eq_endKept (h : Reposts e token value s r)
    (hdrive : e.drive token value (s.tell e (.reposting token)) = .ok () t)
    (hfailed : t.failed = true) (hend : token = e.config.endToken) :
    r = .ok () (t.rollback.tell e .endKept) := by
  cases h with
  | halted hdrive' => cases hdrive.symm.trans hdrive'
  | taken hdrive' hopen =>
    cases hdrive.symm.trans hdrive'
    cases hopen.symm.trans hfailed
  | endKept hdrive' =>
    cases hdrive.symm.trans hdrive'
    rfl
  | discarded _ _ hne => exact absurd hend hne

theorem Reposts.eq_discarded (h : Reposts e token value s r)
    (hdrive : e.drive token value (s.tell e (.reposting token)) = .ok () t)
    (hfailed : t.failed = true) (hne : token ≠ e.config.endToken) :
    r = .ok () (((t.rollback.tell e (.discarding token)).tally
      fun stats => { stats with discarded := stats.discarded + 1 }).fail false) := by
  cases h with
  | halted hdrive' => cases hdrive.symm.trans hdrive'
  | taken hdrive' hopen =>
    cases hdrive.symm.trans hdrive'
    cases hopen.symm.trans hfailed
  | endKept _ _ hend => exact absurd hend hne
  | discarded hdrive' =>
    cases hdrive.symm.trans hdrive'
    rfl

theorem Recovers.eq_unhandled (h : Recovers e token value recovery s r)
    (hunwind : e.unwind recovery s.reopened = .ok false t) :
    r = .ok () (t.rollback.fail true) := by
  cases h with
  | unhandled hunwind' =>
    cases hunwind.symm.trans hunwind'
    rfl
  | unwindHalted hunwind' | halted hunwind' | refused hunwind' | resumed hunwind' =>
    cases hunwind.symm.trans hunwind'

theorem Recovers.eq_refused (h : Recovers e token value recovery s r)
    (hunwind : e.unwind recovery s.reopened = .ok true u)
    (hdrive : e.drive recovery default u = .ok () t) (hfailed : t.failed = true) :
    r = .ok () (t.tell e (.recoveryRefused recovery)).rollback := by
  cases h with
  | unwindHalted hunwind' | unhandled hunwind' => cases hunwind.symm.trans hunwind'
  | halted hunwind' hdrive' =>
    cases hunwind.symm.trans hunwind'
    cases hdrive.symm.trans hdrive'
  | refused hunwind' hdrive' =>
    cases hunwind.symm.trans hunwind'
    cases hdrive.symm.trans hdrive'
    rfl
  | resumed hunwind' hdrive' hopen =>
    cases hunwind.symm.trans hunwind'
    cases hdrive.symm.trans hdrive'
    cases hopen.symm.trans hfailed

theorem Recovers.reposts (h : Recovers e token value recovery s r)
    (hunwind : e.unwind recovery s.reopened = .ok true u)
    (hdrive : e.drive recovery default u = .ok () t) (hopen : t.failed = false) :
    Reposts e token value t.commit r := by
  cases h with
  | unwindHalted hunwind' | unhandled hunwind' => cases hunwind.symm.trans hunwind'
  | halted hunwind' hdrive' =>
    cases hunwind.symm.trans hunwind'
    cases hdrive.symm.trans hdrive'
  | refused hunwind' hdrive' hfailed =>
    cases hunwind.symm.trans hunwind'
    cases hdrive.symm.trans hdrive'
    cases hopen.symm.trans hfailed
  | resumed hunwind' hdrive' _ hreposts =>
    cases hunwind.symm.trans hunwind'
    cases hdrive.symm.trans hdrive'
    exact hreposts

theorem Settles.eq_halted {halt : Halt Fault} (h : Settles e token value s r)
    (hdrive : e.drive token value s.opened = .error halt t) : r = .error halt t := by
  cases h with
  | halted hdrive' =>
    cases hdrive.symm.trans hdrive'
    rfl
  | taken hdrive' | failed hdrive' | recovered hdrive' => cases hdrive.symm.trans hdrive'

theorem Settles.eq_taken (h : Settles e token value s r)
    (hdrive : e.drive token value s.opened = .ok () t) (hopen : t.failed = false) :
    r = .ok () t.commit := by
  cases h with
  | halted hdrive' => cases hdrive.symm.trans hdrive'
  | taken hdrive' =>
    cases hdrive.symm.trans hdrive'
    rfl
  | failed hdrive' hfailed | recovered hdrive' hfailed =>
    cases hdrive.symm.trans hdrive'
    cases hopen.symm.trans hfailed

theorem Settles.eq_failed (h : Settles e token value s r)
    (hdrive : e.drive token value s.opened = .ok () t) (hfailed : t.failed = true)
    (hrecovery : e.config.recovery = none) : r = .ok () t.rollback := by
  cases h with
  | halted hdrive' => cases hdrive.symm.trans hdrive'
  | taken hdrive' hopen =>
    cases hdrive.symm.trans hdrive'
    cases hopen.symm.trans hfailed
  | failed hdrive' =>
    cases hdrive.symm.trans hdrive'
    rfl
  | recovered _ _ hsome => cases hrecovery.symm.trans hsome

theorem Settles.recovers (h : Settles e token value s r)
    (hdrive : e.drive token value s.opened = .ok () t) (hfailed : t.failed = true)
    (hrecovery : e.config.recovery = some recovery) : Recovers e token value recovery t r := by
  cases h with
  | halted hdrive' => cases hdrive.symm.trans hdrive'
  | taken hdrive' hopen =>
    cases hdrive.symm.trans hdrive'
    cases hopen.symm.trans hfailed
  | failed _ _ hnone => cases hnone.symm.trans hrecovery
  | recovered hdrive' _ hrecovery' hrecovers =>
    cases hdrive.symm.trans hdrive'
    cases hrecovery.symm.trans hrecovery'
    exact hrecovers

end Known

variable [DecidableEq T]

theorem repost_course (token : T) (value : V) (s : Session S V σ) :
    Reposts e token value s (e.repost token value s) := by
  have hrepost : e.repost token value s =
      (e.drive token value >>= fun _ => do
        if (← get).failed then
          rollback
          if token = e.config.endToken then e.notify .endKept
          else
            e.notify (.discarding token)
            count fun s => { s with discarded := s.discarded + 1 }
            setFailed false
        else commit) (s.tell e (.reposting token)) := rfl
  rw [hrepost]
  cases hdrive : e.drive token value (s.tell e (.reposting token)) with
  | error halt t =>
    rw [bind_of_error hdrive]
    exact .halted hdrive
  | ok u t =>
    rw [bind_of_ok hdrive, get_bind]
    cases hfailed : t.failed with
    | false => exact .taken hdrive hfailed
    | true =>
      rw [if_pos rfl]
      rw [bind_of_ok (rollback_run t)]
      split
      next hend => exact .endKept hdrive hfailed hend
      next hend => exact .discarded hdrive hfailed hend

theorem recover_course (token : T) (value : V) (recovery : T) (s : Session S V σ) :
    Recovers e token value recovery s (e.recover token value recovery s) := by
  have hrecover : e.recover token value recovery s =
      (e.unwind recovery >>= fun found => do
        if found then
          e.drive recovery default
          if (← get).failed then
            e.notify (.recoveryRefused recovery)
            rollback
          else
            commit
            e.repost token value
        else
          rollback
          setFailed true) s.reopened := rfl
  rw [hrecover]
  cases hunwind : e.unwind recovery s.reopened with
  | error halt t =>
    rw [bind_of_error hunwind]
    exact .unwindHalted hunwind
  | ok found u =>
    rw [bind_of_ok hunwind]
    cases found with
    | false => exact .unhandled hunwind
    | true =>
      rw [if_pos rfl]
      cases hdrive : e.drive recovery default u with
      | error halt t =>
        rw [bind_of_error hdrive]
        exact .halted hunwind hdrive
      | ok v t =>
        rw [bind_of_ok hdrive, get_bind]
        cases hfailed : t.failed with
        | true => exact .refused hunwind hdrive hfailed
        | false => exact .resumed hunwind hdrive hfailed (repost_course e token value t.commit)

theorem settle_course (token : T) (value : V) (s : Session S V σ) :
    Settles e token value s (e.settle token value s) := by
  have hsettle : e.settle token value s =
      (e.drive token value >>= fun _ => do
        if (← get).failed then e.config.recovery.elim rollback (e.recover token value)
        else commit) s.opened := by
    unfold settle
    cases e.config.recovery <;> rfl
  rw [hsettle]
  cases hdrive : e.drive token value s.opened with
  | error halt t =>
    rw [bind_of_error hdrive]
    exact .halted hdrive
  | ok u t =>
    rw [bind_of_ok hdrive, get_bind]
    cases hfailed : t.failed with
    | false => exact .taken hdrive hfailed
    | true =>
      rw [if_pos rfl]
      cases hrecovery : e.config.recovery with
      | none => exact .failed hdrive hfailed hrecovery
      | some recovery =>
        exact .recovered hdrive hfailed hrecovery (recover_course e token value recovery t)

theorem post_course (token : T) (value : V) (s : Session S V σ) :
    Posts e token value s (e.post token value s) := by
  have hpost : e.post token value s =
      (if s.closed then fault .sessionClosed
        else e.guarded (e.settle token value) >>= fun _ => return (← get).closed) s := rfl
  rw [hpost]
  cases hclosed : s.closed with
  | true => exact .refused hclosed
  | false =>
    have hguarded := e.guarded_run (e.settle token value) s
    have hcourse := settle_course e token value s
    rw [if_neg Bool.false_ne_true]
    revert hguarded hcourse
    rcases e.settle token value s with ⟨_, t⟩ | ⟨f | _ | _, t⟩
    · intro hguarded hcourse
      rw [bind_of_ok hguarded]
      exact .answered hclosed hcourse
    · intro hguarded hcourse
      rw [bind_of_error hguarded]
      exact .aborted hclosed hcourse
    · intro hguarded hcourse
      rw [bind_of_error hguarded]
      exact .crashed hclosed hcourse
    · intro hguarded hcourse
      rw [bind_of_error hguarded]
      exact .exhausted hclosed hcourse

section Answers

variable {e} {token : T} {value : V} {rest : List (T × V)} {s t : Session S V σ}

theorem post_of_settle (hopen : s.closed = false) (h : e.settle token value s = .ok () t) :
    e.post token value s = .ok t.closed t := by
  have hguarded : e.guarded (e.settle token value) s = .ok () t := by rw [guarded_run, h]
  have hpost : e.post token value s =
      (if s.closed then fault .sessionClosed
        else e.guarded (e.settle token value) >>= fun _ => return (← get).closed) s := rfl
  rw [hpost, hopen, if_neg Bool.false_ne_true, bind_of_ok hguarded]
  rfl

theorem post_of_taken (hopen : s.closed = false) (hdrive : e.drive token value s.opened = .ok () t)
    (htaken : t.failed = false) : e.post token value s = .ok t.closed t.commit := by
  have hcourse := settle_course e token value s
  generalize hsettle : e.settle token value s = r at hcourse
  obtain rfl := hcourse.eq_taken hdrive htaken
  exact post_of_settle hopen hsettle

theorem post_of_failed (hopen : s.closed = false) (hrecovery : e.config.recovery = none)
    (hdrive : e.drive token value s.opened = .ok () t) (hfailed : t.failed = true) :
    e.post token value s = .ok true t.rollback := by
  have hcourse := settle_course e token value s
  have hclosed : t.rollback.closed = true := by
    rw [Session.closed, show t.rollback.failed = true from hfailed, Bool.or_true]
  generalize hsettle : e.settle token value s = r at hcourse
  obtain rfl := hcourse.eq_failed hdrive hfailed hrecovery
  rw [post_of_settle hopen hsettle, hclosed]

theorem post_of_raised {f : Fault} (hopen : s.closed = false)
    (hdrive : e.drive token value s.opened = .error (.raised f) t) :
    e.post token value s = .error (.raised f) ((t.tell e (.aborting f)).rollback.fail true) := by
  have hcourse := settle_course e token value s
  have hguarded := e.guarded_run (e.settle token value) s
  have hpost : e.post token value s =
      (if s.closed then fault .sessionClosed
        else e.guarded (e.settle token value) >>= fun _ => return (← get).closed) s := rfl
  generalize hsettle : e.settle token value s = r at hcourse
  obtain rfl := hcourse.eq_halted hdrive
  rw [hsettle] at hguarded
  rw [hpost, hopen, if_neg Bool.false_ne_true, bind_of_error hguarded]

theorem post_of_closed (hclosed : s.closed = true) :
    e.post token value s = .error (.raised .sessionClosed) s := by
  have hcourse := post_course e token value s
  generalize e.post token value s = r at hcourse
  cases hcourse with
  | refused => rfl
  | answered hopen | aborted hopen | crashed hopen | exhausted hopen =>
    cases hclosed.symm.trans hopen

theorem post_answer {closed : Bool} (h : e.post token value s = .ok closed t) :
    closed = t.closed := by
  have hcourse := post_course e token value s
  rw [h] at hcourse
  cases hcourse with
  | answered => rfl

theorem postAll_of_closed (h : e.post token value s = .ok true t) :
    e.postAll ((token, value) :: rest) s = .ok true t := bind_of_ok h

theorem postAll_of_open (h : e.post token value s = .ok false t) :
    e.postAll ((token, value) :: rest) s = e.postAll rest t := bind_of_ok h

theorem postAll_of_error {halt : Halt Fault} (h : e.post token value s = .error halt t) :
    e.postAll ((token, value) :: rest) s = .error halt t := bind_of_error h

end Answers

end Courses

end Engine

end ShiftReduce
