import ShiftReduce.Proofs.Engine.Alarm

namespace ShiftReduce

namespace Exchange

variable {S T P V : Type}

def isRefusal : Exchange S T P V → Bool
  | .syntaxError _ => true
  | _ => false

end Exchange

namespace Engine

/-- What the books of a session say: its counters but for the reductions, and how many syntax errors
and how many alarms in all the provider was given. -/
structure Books where
  stats : Stats
  refusals : Nat
  alarms : Nat
  accepted : Bool
  failed : Bool

namespace Books

def opened (b : Books) : Books :=
  { b with stats := { b.stats with tokens := b.stats.tokens + 1 } }

def reopened (b : Books) : Books :=
  { b with stats := { b.stats with recoveries := b.stats.recoveries + 1 }, failed := false }

structure Driven (b c : Books) : Prop where
  tokens_eq : c.stats.tokens = b.stats.tokens
  recoveries_eq : c.stats.recoveries = b.stats.recoveries
  discarded_eq : c.stats.discarded = b.stats.discarded
  errors_eq : c.stats.errors + b.refusals = b.stats.errors + c.refusals
  shifts_le : c.stats.shifts ≤ b.stats.shifts + 1
  alarms_eq : c.alarms = b.alarms + if c.failed then 1 else 0

structure Reposted (b c : Books) : Prop where
  tokens_eq : c.stats.tokens = b.stats.tokens
  recoveries_eq : c.stats.recoveries = b.stats.recoveries
  discarded_le : c.stats.discarded ≤ b.stats.discarded + 1
  errors_eq : c.stats.errors + b.refusals = b.stats.errors + c.refusals
  shifts_le : c.stats.shifts ≤ b.stats.shifts + 1
  le_alarms : b.alarms ≤ c.alarms
  alarms_le : c.alarms ≤ b.alarms + 1

structure Recovered (b c : Books) : Prop where
  tokens_eq : c.stats.tokens = b.stats.tokens
  recoveries_eq : c.stats.recoveries = b.stats.recoveries + 1
  discarded_le : c.stats.discarded ≤ b.stats.discarded + 1
  errors_eq : c.stats.errors + b.refusals = b.stats.errors + c.refusals
  shifts_le : c.stats.shifts ≤ b.stats.shifts + 2
  le_alarms : b.alarms ≤ c.alarms
  alarms_le : c.alarms ≤ b.alarms + 1

structure Posted (recovers : Bool) (b c : Books) : Prop where
  tokens_eq : c.stats.tokens = b.stats.tokens + 1
  le_recoveries : b.stats.recoveries ≤ c.stats.recoveries
  recoveries_le : c.stats.recoveries ≤ b.stats.recoveries + 1
  discarded_le : c.stats.discarded + b.stats.recoveries ≤ b.stats.discarded + c.stats.recoveries
  errors_eq : c.stats.errors + b.refusals = b.stats.errors + c.refusals
  shifts_le : c.stats.shifts + 2 * b.stats.recoveries ≤ b.stats.shifts + 2 * c.stats.recoveries + 1
  le_alarms : b.alarms + c.stats.recoveries ≤ c.alarms + b.stats.recoveries
  alarms_le : recovers = true →
    c.alarms + 2 * b.stats.recoveries ≤ b.alarms + 2 * c.stats.recoveries
  unrecovered : recovers = false → c.stats.recoveries = b.stats.recoveries ∧
    c.stats.discarded = b.stats.discarded ∧ c.alarms ≤ b.alarms + if c.failed then 1 else 0

namespace Driven

variable {b c d : Books}

theorem le_alarms (h : b.Driven c) : b.alarms ≤ c.alarms := by
  have halarms := h.alarms_eq
  split at halarms <;> omega

theorem alarms_le (h : b.Driven c) : c.alarms ≤ b.alarms + 1 := by
  have halarms := h.alarms_eq
  split at halarms <;> omega

theorem alarms_of_open (h : b.Driven c) (hopen : c.failed = false) : c.alarms = b.alarms := by
  simpa [hopen] using h.alarms_eq

theorem alarms_of_failed (h : b.Driven c) (hfailed : c.failed = true) :
    c.alarms = b.alarms + 1 := by
  simpa [hfailed] using h.alarms_eq

theorem reposted (h : b.Driven c) : b.Reposted c :=
  ⟨h.tokens_eq, h.recoveries_eq, by have := h.discarded_eq; omega, h.errors_eq, h.shifts_le,
    h.le_alarms, h.alarms_le⟩

theorem recovered (h : b.reopened.Driven c) : b.Recovered c :=
  ⟨h.tokens_eq, h.recoveries_eq, h.reposted.discarded_le, h.errors_eq, h.shifts_le.step,
    h.le_alarms, h.alarms_le⟩

theorem recovered_reposted (h : b.reopened.Driven c) (hopen : c.failed = false)
    (k : c.Reposted d) : b.Recovered d := by
  have halarms := h.alarms_of_open hopen
  obtain ⟨htokens, hrecoveries, hdiscarded, herrors, hshifts, -⟩ := h
  obtain ⟨htokens', hrecoveries', hdiscarded', herrors', hshifts', hle, hge⟩ := k
  simp only [reopened] at *
  constructor <;> omega

theorem posted {recovers : Bool} (h : b.opened.Driven c)
    (hopen : recovers = true → c.failed = false) : b.Posted recovers c := by
  have hle := h.le_alarms
  have hstill := fun hrecovers => h.alarms_of_open (hopen hrecovers)
  obtain ⟨htokens, hrecoveries, hdiscarded, herrors, hshifts, halarms⟩ := h
  simp only [opened] at *
  refine ⟨htokens, by omega, by omega, by omega, herrors, by omega, by omega, fun hrecovers => ?_,
    fun _ => ⟨hrecoveries, hdiscarded, Nat.le_of_eq halarms⟩⟩
  have hstill := hstill hrecovers
  omega

theorem posted_recovered (h : b.opened.Driven c) (hfailed : c.failed = true)
    (k : c.Recovered d) : b.Posted true d := by
  have halarms := h.alarms_of_failed hfailed
  obtain ⟨htokens, hrecoveries, hdiscarded, herrors, hshifts, -⟩ := h
  obtain ⟨htokens', hrecoveries', hdiscarded', herrors', hshifts', hle, hge⟩ := k
  simp only [opened] at *
  refine ⟨?_, ?_, ?_, ?_, ?_, ?_, ?_, fun _ => ?_, nofun⟩ <;> omega

end Driven

theorem Posted.aborted {recovers : Bool} {b c : Books} (h : b.Posted recovers c) :
    b.Posted recovers { c with failed := true } := by
  refine ⟨h.tokens_eq, h.le_recoveries, h.recoveries_le, h.discarded_le, h.errors_eq, h.shifts_le,
    h.le_alarms, h.alarms_le, fun hrecovers => ?_⟩
  obtain ⟨hrecoveries, hdiscarded, halarms⟩ := h.unrecovered hrecovers
  refine ⟨hrecoveries, hdiscarded, Nat.le_trans halarms (Nat.add_le_add_left ?_ _)⟩
  split <;> simp

end Books

variable {S T N P V σ : Type}

abbrev Audited (S T P V σ : Type) := Session S V (σ × List (Exchange S T P V))

def books (s : Audited S T P V σ) : Books where
  stats := { s.stats with reductions := 0 }
  refusals := s.client.2.countP Exchange.isRefusal
  alarms := s.client.2.countP Exchange.alarming
  accepted := s.accepted
  failed := s.failed

theorem books_discreet (e : Engine S T N P V σ) :
    Discreet e.logged (books : Audited S T P V σ → Books) where
  stack _ _ := rfl
  told notice s hnotice := by
    simp [books, Session.tell, logged, Provider.logged, hnotice]
  called production args s := by
    simp only [callProvider, logged, Provider.logged]
    cases e.provider.reduce production args s.client.1 <;>
      simp [books, final, Exchange.isRefusal, Exchange.alarming]
  reduced _ := rfl
  failed h := congrArg Books.failed h

variable {e : Engine S T N P V σ} {s t u : Audited S T P V σ}

theorem books_refused (e : Engine S T N P V σ) (err : SyntaxError S T) (s : Audited S T P V σ) :
    books (((s.tally fun stats => { stats with errors := stats.errors + 1 }).tell e.logged
      (.syntaxError err)).fail true) =
      { books s with
        stats := { (books s).stats with errors := (books s).stats.errors + 1 }
        refusals := (books s).refusals + 1
        alarms := (books s).alarms + 1
        failed := true } := by
  simp [books, Session.tell, Session.fail, Session.tally, logged, Provider.logged, Exchange.of?,
    Exchange.isRefusal, Exchange.alarming]

theorem books_crowded (e : Engine S T N P V σ) (err : StackError) (s : Audited S T P V σ) :
    books ((s.tell e.logged (.stackOverflow err)).fail true) =
      { books s with alarms := (books s).alarms + 1, failed := true } := by
  simp [books, Session.tell, Session.fail, logged, Provider.logged, Exchange.of?,
    Exchange.isRefusal, Exchange.alarming]

theorem books_shifted (s : Audited S T P V σ) :
    books (s.tally fun stats => { stats with shifts := stats.shifts + 1 }) =
      { books s with stats := { (books s).stats with shifts := (books s).stats.shifts + 1 } } := rfl

theorem books_accepted (result : Option V) (s : Audited S T P V σ) :
    books { s with accepted := true, result } = { books s with accepted := true } := rfl

section Drives

variable [Inhabited V] {token recovery : T} {value : V}
  {r : EStateM.Result (Halt Fault) (Audited S T P V σ) Unit}

theorem drive_driven (hopen : s.failed = false) (hdrive : e.logged.drive token value s = r)
    (h : Completes r t) : (books s).Driven (books t) := by
  have hended := (books_discreet e).drive_ended token value hopen
  rw [hdrive] at hended
  have hunfailed : (books s).failed = false := hopen
  cases hended with
  | halted hu =>
    cases h
    constructor <;> simp [hu, hunfailed]
  | crashed => cases h
  | shifted hu ht =>
    cases h
    rw [ht, books_shifted, hu]
    constructor <;> simp [hunfailed]
  | @accepted u _ hu =>
    cases h
    rw [books_accepted, hu]
    constructor <;> simp [hunfailed]
  | refused hu =>
    cases h
    rw [books_refused, hu]
    constructor <;> simp
    omega
  | crowded hu =>
    cases h
    rw [books_crowded, hu]
    constructor <;> simp
  | overrun hu =>
    cases h
    rw [books_crowded, books_shifted, hu]
    constructor <;> simp

theorem drive_faulted {halt : Halt Fault} (hopen : s.failed = false)
    (hdrive : e.logged.drive token value s = .error halt u)
    (h : Completes (.error halt u : EStateM.Result _ _ Unit) t) : books t = books s := by
  have hended := (books_discreet e).drive_ended token value hopen
  rw [hdrive] at hended
  cases h
  cases hended with
  | halted hu => exact hu

theorem drive_moved (hopen : s.failed = false) (h : e.logged.drive token value s = .ok () t)
    (hstill : t.failed = false) (hunaccepted : s.accepted = false) :
    s.stats.shifts + 1 = t.stats.shifts + if t.accepted then 1 else 0 := by
  have hended := (books_discreet e).drive_ended token value hopen
  rw [h] at hended
  have hshifts : (books s).stats.shifts + 1 =
      (books t).stats.shifts + if (books t).accepted then 1 else 0 := by
    have hunaccepted : (books s).accepted = false := hunaccepted
    cases hended with
    | shifted hu ht =>
      rw [ht, books_shifted, hu]
      simp [hunaccepted]
    | accepted hu =>
      rw [books_accepted, hu]
      simp
    | refused | crowded | overrun => cases hstill
  exact hshifts

omit [Inhabited V] in
theorem unwind_books {r : EStateM.Result (Halt Fault) (Audited S T P V σ) Bool}
    (h : e.logged.unwind recovery s = r) : books (final r) = books s := by
  rw [← h]
  exact (books_discreet e).unwind recovery s rfl

end Drives

section Posts

variable [Inhabited V] {token recovery : T} {value : V}
  {r : EStateM.Result (Halt Fault) (Audited S T P V σ) Unit}

theorem Reposts.reposted (h : Reposts e.logged token value s r) (hr : Completes r t)
    (hopen : s.failed = false) : (books s).Reposted (books t) := by
  have htold : ∀ notice, Exchange.of? notice = none → ∀ u : Audited S T P V σ,
      books (u.tell e.logged notice) = books u :=
    fun notice hnotice u => (books_discreet e).told notice u hnotice
  have hdriven {r u} (hdrive : e.logged.drive token value (s.tell e.logged (.reposting token)) = r)
      (hr : Completes r u) : (books s).Driven (books u) := by
    rw [← htold (.reposting token) rfl s]
    exact drive_driven (s := s.tell e.logged (.reposting token)) hopen hdrive hr
  cases h with
  | halted hdrive => exact (hdriven hdrive hr).reposted
  | taken hdrive =>
    cases hr
    exact (hdriven hdrive .answered).reposted
  | @endKept u hdrive =>
    cases hr
    rw [htold .endKept rfl u.rollback]
    exact (hdriven hdrive .answered).reposted
  | @discarded u hdrive hfailed =>
    cases hr
    have hu := hdriven hdrive .answered
    have hbooks : books (((u.rollback.tell e.logged (.discarding token)).tally
        fun stats => { stats with discarded := stats.discarded + 1 }).fail false) =
        { books u with
          stats := { (books u).stats with discarded := (books u).stats.discarded + 1 }
          failed := false } := by
      rw [← show books (u.rollback.tell e.logged (.discarding token)) = books u from
        htold (.discarding token) rfl u.rollback]
      rfl
    rw [hbooks]
    exact ⟨hu.tokens_eq, hu.recoveries_eq, Nat.le_of_eq (congrArg (· + 1) hu.discarded_eq),
      hu.errors_eq, hu.shifts_le, hu.le_alarms, hu.alarms_le⟩

theorem Recovers.recovered (h : Recovers e.logged token value recovery s r) (hr : Completes r t) :
    (books s).Recovered (books t) := by
  have hunwound {r} (hunwind : e.logged.unwind recovery s.reopened = r) :
      books (final r) = (books s).reopened := unwind_books hunwind
  have hdriven {u r v} (hunwind : e.logged.unwind recovery s.reopened = .ok true u)
      (hdrive : e.logged.drive recovery default u = r) (hr : Completes r v) :
      (books s).reopened.Driven (books v) := by
    rw [← show books u = (books s).reopened from hunwound hunwind]
    exact drive_driven (congrArg Books.failed (hunwound hunwind)) hdrive hr
  cases h with
  | unwindHalted hunwind =>
    cases hr
    rw [show books t = (books s).reopened from hunwound hunwind]
    constructor <;> simp [Books.reopened]
  | @unhandled u hunwind =>
    cases hr
    have ht : books (u.rollback.fail true) = { books u with failed := true } := rfl
    rw [ht, show books u = (books s).reopened from hunwound hunwind]
    constructor <;> simp [Books.reopened]
  | halted hunwind hdrive => exact (hdriven hunwind hdrive hr).recovered
  | @refused u v hunwind hdrive =>
    cases hr
    have ht : books (v.tell e.logged (.recoveryRefused recovery)).rollback = books v :=
      (books_discreet e).told _ v rfl
    rw [ht]
    exact (hdriven hunwind hdrive .answered).recovered
  | resumed hunwind hdrive hstill hreposts =>
    exact (hdriven hunwind hdrive .answered).recovered_reposted hstill (hreposts.reposted hr hstill)

theorem Settles.posted (h : Settles e.logged token value s r) (hr : Completes r t)
    (hopen : s.failed = false) :
    (books s).Posted e.config.recovery.isSome (books t) := by
  have hdriven {r u} (hdrive : e.logged.drive token value s.opened = r) (hr : Completes r u) :
      (books s).opened.Driven (books u) := drive_driven (s := s.opened) hopen hdrive hr
  cases h with
  | halted hdrive =>
    have hsame : books t = books s.opened := drive_faulted (s := s.opened) hopen hdrive hr
    exact (hdriven hdrive hr).posted fun _ => (congrArg Books.failed hsame).trans hopen
  | taken hdrive hstill =>
    cases hr
    exact (hdriven hdrive .answered).posted fun _ => hstill
  | failed hdrive hfailed hrecovery =>
    cases hr
    refine (hdriven hdrive .answered).posted fun hsome => ?_
    rw [show e.config.recovery = none from hrecovery] at hsome
    cases hsome
  | recovered hdrive hfailed hrecovery hrecovers =>
    have hrecovery : e.config.recovery = _ := hrecovery
    rw [hrecovery]
    exact (hdriven hdrive .answered).posted_recovered hfailed (hrecovers.recovered hr)

theorem Settles.moved (h : Settles e.logged token value s (.ok () t)) (hopen : s.failed = false)
    (hunaccepted : s.accepted = false) (hquiet : (books t).alarms = (books s).alarms) :
    s.stats.shifts + 1 = t.stats.shifts + if t.accepted then 1 else 0 := by
  have hfailing {u} (hdrive : e.logged.drive token value s.opened = .ok () u)
      (hfailed : u.failed = true) : (books u).alarms = (books s).alarms + 1 :=
    (drive_driven (s := s.opened) hopen hdrive .answered).alarms_of_failed hfailed
  cases h with
  | @taken u hdrive hstill =>
    have hmoved := drive_moved (s := s.opened) hopen hdrive hstill hunaccepted
    exact hmoved
  | @failed u hdrive hfailed =>
    have halarms := hfailing hdrive hfailed
    have hsame : (books u.rollback).alarms = (books u).alarms := rfl
    omega
  | recovered hdrive hfailed _ hrecovers =>
    have halarms := hfailing hdrive hfailed
    have hle := (hrecovers.recovered .answered).le_alarms
    omega

theorem drive_discarded {token : T} (hopen : s.failed = false)
    (hdrive : e.logged.drive token value s = r) :
    (final r).stats.discarded = s.stats.discarded := by
  have hended := (books_discreet e).drive_ended token value hopen
  rw [hdrive] at hended
  have hdiscarded : (books (final r)).stats.discarded = (books s).stats.discarded := by
    cases hended with
    | halted hu => exact congrArg (fun b => b.stats.discarded) hu
    | shifted hu ht =>
      rw [final, ht, books_shifted, hu]
    | crashed hu =>
      rw [final, books_shifted, hu]
    | accepted hu =>
      rw [final, books_accepted, hu]
    | refused hu =>
      rw [final, books_refused, hu]
    | crowded hu =>
      rw [final, books_crowded, hu]
    | overrun hu =>
      rw [final, books_crowded, books_shifted, hu]
  exact hdiscarded

theorem Reposts.discarded_eq (h : Reposts e.logged e.config.endToken value s r)
    (hopen : s.failed = false) : (final r).stats.discarded = s.stats.discarded := by
  cases h with
  | halted hdrive | taken hdrive | endKept hdrive =>
    have hdiscarded := drive_discarded (s := s.tell _ _) hopen hdrive
    exact hdiscarded
  | discarded _ _ hne => exact absurd rfl hne

theorem Recovers.discarded_eq (h : Recovers e.logged e.config.endToken value recovery s r) :
    (final r).stats.discarded = s.stats.discarded := by
  have hunwound {r} (hunwind : e.logged.unwind recovery s.reopened = r) :
      books (final r) = (books s).reopened := unwind_books hunwind
  cases h with
  | unwindHalted hunwind | unhandled hunwind =>
    exact congrArg (fun b => b.stats.discarded) (hunwound hunwind)
  | halted hunwind hdrive | refused hunwind hdrive =>
    have hdiscarded := drive_discarded (congrArg Books.failed (hunwound hunwind)) hdrive
    exact hdiscarded.trans (congrArg (fun b => b.stats.discarded) (hunwound hunwind))
  | resumed hunwind hdrive hstill hreposts =>
    have hdiscarded := drive_discarded (congrArg Books.failed (hunwound hunwind)) hdrive
    have hreposted := hreposts.discarded_eq hstill
    exact (hreposted.trans hdiscarded).trans
      (congrArg (fun b => b.stats.discarded) (hunwound hunwind))

theorem Settles.discarded_eq (h : Settles e.logged e.config.endToken value s r)
    (hopen : s.failed = false) : (final r).stats.discarded = s.stats.discarded := by
  cases h with
  | halted hdrive | taken hdrive | failed hdrive =>
    have hdiscarded := drive_discarded (s := s.opened) hopen hdrive
    exact hdiscarded
  | recovered hdrive _ _ hrecovers =>
    have hdiscarded := drive_discarded (s := s.opened) hopen hdrive
    exact hrecovers.discarded_eq.trans hdiscarded

theorem post_discarded [DecidableEq T] (e : Engine S T N P V σ) (value : V)
    (s : Audited S T P V σ) :
    (final (e.logged.post e.config.endToken value s)).stats.discarded = s.stats.discarded := by
  have hcourse := post_course e.logged e.config.endToken value s
  generalize e.logged.post e.config.endToken value s = r at hcourse
  cases hcourse with
  | refused => rfl
  | answered hopen hsettles | aborted hopen hsettles | crashed hopen hsettles
  | exhausted hopen hsettles =>
    have hdiscarded := hsettles.discarded_eq (Bool.or_eq_false_iff.mp hopen).2
    exact hdiscarded

end Posts

end Engine

end ShiftReduce
