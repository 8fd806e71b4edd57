import ShiftReduce.Proofs.Engine.Books
import ShiftReduce.Proofs.Engine.Founded

namespace ShiftReduce.Engine

/-- What is known of a session since it was last reset. -/
structure Tally (S T P V : Type) where
  posts : Nat
  faulted : Bool
  earlier : List (Exchange S T P V)

namespace Books

/-- What holds of the books between posts, by what is known of the session. -/
structure Balanced {S T P V : Type} (recovers : Bool) (tally : Tally S T P V) (b : Books) :
    Prop where
  tokens_eq : b.stats.tokens = tally.posts
  errors_eq : b.stats.errors + tally.earlier.countP Exchange.isRefusal = b.refusals
  discarded_le : b.stats.discarded ≤ b.stats.recoveries
  recoveries_le : b.stats.recoveries ≤ b.stats.tokens
  le_alarms : tally.earlier.countP Exchange.alarming + b.stats.recoveries ≤ b.alarms
  alarms_le : recovers = true →
    b.alarms ≤ tally.earlier.countP Exchange.alarming + 2 * b.stats.recoveries
  unrecovered : recovers = false → b.stats.recoveries = 0 ∧
    b.alarms ≤ tally.earlier.countP Exchange.alarming + if b.failed then 1 else 0
  shifts_le : b.stats.shifts ≤ b.stats.tokens + 2 * b.stats.recoveries
  moved : b.alarms = tally.earlier.countP Exchange.alarming → tally.faulted = false →
    b.stats.tokens = b.stats.shifts + if b.accepted then 1 else 0

theorem Posted.balanced {S T P V : Type} {recovers : Bool} {tally : Tally S T P V} {b c : Books}
    (faulted : Bool) (h : b.Posted recovers c) (hb : b.Balanced recovers tally)
    (hunaccepted : b.accepted = false) (hunfailed : b.failed = false)
    (hmoved : faulted = false → c.alarms = b.alarms →
      b.stats.shifts + 1 = c.stats.shifts + if c.accepted then 1 else 0) :
    c.Balanced recovers ⟨tally.posts + 1, tally.faulted || faulted, tally.earlier⟩ := by
  obtain ⟨htokens, herrors, hdiscarded, hrecoveries, hle, hge, hoff, hshifts, hsettled⟩ := hb
  obtain ⟨htokens', hgrown, hrecoveries', hdiscarded', herrors', hshifts', hle', hge', hoff'⟩ := h
  simp only [hunaccepted, hunfailed, Bool.false_eq_true, if_false] at *
  constructor <;> try dsimp only
  case alarms_le =>
    intro hrecovers
    have hge := hge hrecovers
    have hge' := hge' hrecovers
    omega
  case unrecovered =>
    intro hrecovers
    have hoff := hoff hrecovers
    have hoff' := hoff' hrecovers
    omega
  case moved =>
    intro hquiet hfaultless
    obtain ⟨hbefore, hnow⟩ := Bool.or_eq_false_iff.mp hfaultless
    have hsettled := hsettled (by omega) hbefore
    have hmoved := hmoved hnow (by omega)
    omega
  all_goals omega

end Books

variable {S T N P V σ : Type} {e : Engine S T N P V σ} {s t : Audited S T P V σ}

theorem logged_keeps (e : Engine S T N P V σ) (earlier : List (Exchange S T P V)) :
    e.logged.Keeps fun c _ => earlier <+: c.2 where
  told _ _ _ hc := hc.trans (List.prefix_append _ _)
  called production args c _ hc := by
    have hlog : (remains (e.logged.provider.reduce production args c)).2 = _ :=
      (e.provider.logged_reduce production args c).2
    rw [hlog]
    exact hc.trans (List.prefix_append _ _)
  overflowed _ _ _ hc := hc.trans (List.prefix_append _ _)
  refused _ _ _ hc := hc.trans (List.prefix_append _ _)

def Balanced (e : Engine S T N P V σ) (tally : Tally S T P V) (s : Audited S T P V σ) : Prop :=
  tally.earlier <+: s.client.2 ∧ (books s).Balanced e.config.recovery.isSome tally

section Operations

variable [Inhabited V] [DecidableEq T]

/-- How many of the tokens are let in: posts are refused by a closed session only, and the tokens
after one that closes it are not posted. -/
def admitted (e : Engine S T N P V σ) : List (T × V) → Session S V σ → Nat
  | [], _ => 0
  | (token, value) :: rest, s =>
    if s.closed then 0
    else match e.post token value s with
      | .ok false t => e.admitted rest t + 1
      | _ => 1

namespace Tally

def opened (s : Audited S T P V σ) : Tally S T P V := ⟨0, false, s.client.2⟩

def read (e : Engine S T N P V σ) (tokens : List (T × V)) (s : Audited S T P V σ)
    (tally : Tally S T P V) : Tally S T P V :=
  { tally with
    posts := tally.posts + e.logged.admitted tokens s
    faulted := tally.faulted || !s.closed && !isOk (e.logged.postAll tokens s) }

def perform (e : Engine S T N P V σ) (s : Audited S T P V σ) (tally : Tally S T P V) :
    Op T V → Tally S T P V
  | .post token value => tally.read e [(token, value)] s
  | .postAll tokens => tally.read e tokens s
  | .parse tokens => (opened (final (e.logged.reset s))).read e tokens (final (e.logged.reset s))
  | .reset => opened (final (e.logged.reset s))
  | .accepted | .take => tally

end Tally

section Read

variable {tally : Tally S T P V} {token : T} {value : V} {rest : List (T × V)}

theorem completes_postAll_singleton {e : Engine S T N P V σ} {s t : Session S V σ}
    (h : Completes (e.post token value s) t) : Completes (e.postAll [(token, value)] s) t := by
  generalize hrun : e.post token value s = r at h
  cases h with
  | @answered closed =>
    cases closed with
    | true =>
      rw [postAll_of_closed hrun]
      exact .answered
    | false =>
      rw [postAll_of_open hrun]
      exact .answered
  | faulted =>
    rw [postAll_of_error hrun]
    exact .faulted

omit [DecidableEq T] in
theorem completes_of_reset {α : Type} {e : Engine S T N P V σ} {s t : Session S V σ}
    {f : Unit → Run S V σ α} (h : Completes ((e.reset >>= f) s) t) :
    ∃ u, e.reset s = .ok () u ∧ Completes (f () u) t := by
  by_cases hstate : e.table.hasState e.table.start = true
  · rw [bind_of_ok (reset_run s hstate)] at h
    exact ⟨_, reset_run s hstate, h⟩
  · have hreset : e.reset s = .error .crash (cleared s) := by
      rw [reset_eq, bind_of_error (e.push_crash _ (cleared s) hstate)]
    rw [bind_of_error hreset] at h
    cases h

namespace Tally

theorem read_nil : tally.read e [] s = tally := by
  have hok : isOk (e.logged.postAll ([] : List (T × V)) s) = true := rfl
  simp [read, admitted, hok]

theorem read_of_closed (hclosed : s.closed = true) :
    tally.read e ((token, value) :: rest) s = tally := by
  simp [read, admitted, hclosed]

theorem read_of_open (hopen : s.closed = false) (h : e.logged.post token value s = .ok false t) :
    tally.read e ((token, value) :: rest) s =
      { tally with posts := tally.posts + 1 }.read e rest t := by
  simp [read, admitted, hopen, h, postAll_of_open h, ← post_answer h, Nat.add_comm, Nat.add_assoc]

theorem read_of_last (hopen : s.closed = false) (h : e.logged.post token value s = .ok true t) :
    tally.read e ((token, value) :: rest) s = { tally with posts := tally.posts + 1 } := by
  simp [read, admitted, hopen, h, postAll_of_closed h, isOk]

theorem read_of_faulted {halt : Halt Fault} (hopen : s.closed = false)
    (h : e.logged.post token value s = .error halt t) :
    tally.read e ((token, value) :: rest) s =
      { tally with posts := tally.posts + 1, faulted := true } := by
  simp [read, admitted, hopen, h, postAll_of_error h, isOk]

end Tally

end Read

inductive Observed (e : Engine S T N P V σ) : Tally S T P V → Audited S T P V σ → Prop
  | start {client s} : e.logged.start (client, []) = .ok () s → Observed e (.opened s) s
  | perform {tally s t} (op : Op T V) : Observed e tally s → Completes (e.logged.perform op s) t →
      Observed e (tally.perform e s op) t
  | attend {tally s} (client : σ) : Observed e tally s →
      Observed e tally { s with client := (client, s.client.2) }

namespace Balanced

variable {tally : Tally S T P V} {token : T} {value : V}

theorem answered {closed : Bool} (hs : Balanced e tally s) (hopen : s.closed = false)
    (h : e.logged.post token value s = .ok closed t) :
    Balanced e { tally with posts := tally.posts + 1 } t := by
  obtain ⟨hunaccepted, hunfailed⟩ := Bool.or_eq_false_iff.mp hopen
  have hearlier := post_keeps (logged_keeps e tally.earlier) token value s hs.1
  have hcourse := post_course e.logged token value s
  rw [h] at hcourse hearlier
  cases hcourse with
  | answered _ hsettles =>
    have hbalanced := (hsettles.posted .answered hunfailed).balanced false hs.2
      hunaccepted hunfailed fun _ => hsettles.moved hunfailed hunaccepted
    rw [Bool.or_false] at hbalanced
    exact ⟨hearlier, hbalanced⟩

theorem faulted {f : Fault} (hs : Balanced e tally s) (hopen : s.closed = false)
    (h : e.logged.post token value s = .error (.raised f) t) :
    Balanced e { tally with posts := tally.posts + 1, faulted := true } t := by
  obtain ⟨hunaccepted, hunfailed⟩ := Bool.or_eq_false_iff.mp hopen
  have hearlier := post_keeps (logged_keeps e tally.earlier) token value s hs.1
  have hcourse := post_course e.logged token value s
  rw [h] at hcourse hearlier
  cases hcourse with
  | refused hclosed => cases hopen.symm.trans hclosed
  | @aborted _ u _ hsettles =>
    have htold : books (u.tell e.logged (.aborting f)) = books u := (books_discreet e).told _ u rfl
    have hbooks : books ((u.tell e.logged (.aborting f)).rollback.fail true) =
        { books u with failed := true } := by
      rw [← htold]
      rfl
    have hposted := (hsettles.posted .faulted hunfailed).aborted
    rw [← hbooks] at hposted
    have hbalanced := hposted.balanced true hs.2 hunaccepted hunfailed nofun
    rw [Bool.or_true] at hbalanced
    exact ⟨hearlier, hbalanced⟩

theorem postAll (tokens : List (T × V)) (hs : Balanced e tally s)
    (h : Completes (e.logged.postAll tokens s) t) : Balanced e (tally.read e tokens s) t := by
  induction tokens generalizing s tally with
  | nil =>
    cases h
    rwa [Tally.read_nil]
  | cons posted rest ih =>
    obtain ⟨token, value⟩ := posted
    cases hopen : s.closed with
    | true =>
      rw [Tally.read_of_closed hopen]
      rw [postAll_of_error (post_of_closed hopen)] at h
      cases h
      exact hs
    | false =>
      cases hpost : e.logged.post token value s with
      | ok closed u =>
        have hu := hs.answered hopen hpost
        cases closed with
        | true =>
          rw [Tally.read_of_last hopen hpost]
          rw [postAll_of_closed hpost] at h
          cases h
          exact hu
        | false =>
          rw [Tally.read_of_open hopen hpost]
          rw [postAll_of_open hpost] at h
          exact ih hu h
      | error halt u =>
        rw [postAll_of_error hpost] at h
        cases h
        rw [Tally.read_of_faulted hopen hpost]
        exact hs.faulted hopen hpost

omit [DecidableEq T] in
theorem opened (h : e.logged.reset s = .ok () t) : Balanced e (.opened t) t := by
  have hempty : t.stats = {} ∧ t.accepted = false := by
    by_cases hstate : e.logged.table.hasState e.logged.table.start = true
    · rw [reset_run s hstate] at h
      cases h
      split <;> exact ⟨rfl, rfl⟩
    · rw [reset_eq, bind_of_error (e.logged.push_crash _ (cleared s) hstate)] at h
      cases h
  obtain ⟨hstats, hunaccepted⟩ := hempty
  refine ⟨List.prefix_rfl, ?_⟩
  constructor <;> simp [books, Tally.opened, hstats, hunaccepted]

omit [Inhabited V] [DecidableEq T] in
theorem take (hs : Balanced e tally s) (h : Completes (Engine.take s) t) : Balanced e tally t := by
  rw [take_run] at h
  split at h <;> cases h <;> exact hs

theorem perform (op : Op T V) (hs : Balanced e tally s)
    (h : Completes (e.logged.perform op s) t) : Balanced e (tally.perform e s op) t := by
  cases op with
  | post token value => exact hs.postAll _ (completes_postAll_singleton (completes_of_map h))
  | postAll tokens => exact hs.postAll tokens (completes_of_map h)
  | parse tokens =>
    obtain ⟨u, hreset, hrest⟩ := completes_of_reset (completes_of_map h)
    have hu : Balanced e (.opened u) u := opened hreset
    have hfinal : final (e.logged.reset s) = u := congrArg final hreset
    rw [Tally.perform, hfinal]
    rcases completes_of_bind hrest with ⟨_, v, hposted, htake⟩ | hposted
    · exact (hu.postAll tokens (hposted ▸ .answered)).take htake
    · exact hu.postAll tokens hposted
  | reset =>
    obtain ⟨u, hreset, hrest⟩ := completes_of_reset h
    have hfinal : final (e.logged.reset s) = u := congrArg final hreset
    rw [Tally.perform, hfinal]
    cases hrest
    exact opened hreset
  | accepted =>
    cases h
    exact hs
  | take => exact hs.take (completes_of_map h)

end Balanced

theorem Observed.balanced {tally : Tally S T P V} (h : Observed e tally s) :
    Balanced e tally s := by
  induction h with
  | @start client s hstart =>
    exact .opened (s := e.logged.blank (client, [])) (of_start hstart).1
  | perform op _ h ih => exact ih.perform op h
  | attend client _ ih => exact ih

/-- The accounts of a session add up: since its last reset, the tokens are the posts that were not
refused, the errors are the syntax errors the provider was told of, every recovery answers one alarm
or two, and as long as nothing went wrong every token was shifted or accepted. -/
theorem accounts_balance {tally : Tally S T P V} (h : Observed e tally s) :
    ∃ calls, s.client.2 = tally.earlier ++ calls ∧
      s.stats.tokens = tally.posts ∧
      s.stats.errors = calls.countP Exchange.isRefusal ∧
      (e.config.recovery = none →
        s.stats.recoveries = 0 ∧ s.stats.discarded = 0 ∧ calls.countP Exchange.alarming ≤ 1) ∧
      (e.config.recovery ≠ none →
        s.stats.discarded ≤ s.stats.recoveries ∧ s.stats.recoveries ≤ s.stats.tokens ∧
          s.stats.recoveries ≤ calls.countP Exchange.alarming ∧
          calls.countP Exchange.alarming ≤ 2 * s.stats.recoveries) ∧
      s.stats.shifts ≤ s.stats.tokens + 2 * s.stats.recoveries ∧
      (∀ value, (final (e.logged.post e.config.endToken value s)).stats.discarded =
        s.stats.discarded) ∧
      (calls.countP Exchange.alarming = 0 → tally.faulted = false →
        s.stats.tokens = s.stats.shifts + if s.accepted then 1 else 0) := by
  obtain ⟨⟨calls, hcalls⟩, hbalanced⟩ := h.balanced
  obtain ⟨htokens, herrors, hdiscarded, hrecoveries, hle, hge, hoff, hshifts, hmoved⟩ := hbalanced
  simp only [books, ← hcalls, List.countP_append] at *
  refine ⟨calls, rfl, htokens, by omega, fun hrecovery => ?_, fun hrecovery => ?_, hshifts,
    fun value => post_discarded e value s, fun hquiet hfaultless => hmoved (by omega) hfaultless⟩
  · obtain ⟨hnone, halarms⟩ := hoff (by simp [hrecovery])
    split at halarms <;> omega
  · have hge := hge (Option.isSome_iff_ne_none.mpr hrecovery)
    omega

end Operations

section Garbled

open Calculator (stock Client State Terminal Production Value)

def garbled : List (Terminal × Value) :=
  [(.int, .number 1), (.rightParen, .nothing), (.semicolon, .nothing), (.eof, .nothing)]

def newAudited : Audited State Terminal Production Value (Client Unit) :=
  final (stock.logged.start (.new (), []))

def auditedGarbled : Audited State Terminal Production Value (Client Unit) :=
  final (stock.logged.perform (.postAll garbled) newAudited)

theorem accounts_balance_garbled :
    ∃ tally, Observed stock tally auditedGarbled ∧ tally.posts = 4 ∧ tally.faulted = false ∧
      auditedGarbled.accepted = true ∧ auditedGarbled.stats = ⟨4, 3, 7, 2, 1, 1⟩ ∧
      ∃ calls, auditedGarbled.client.2 = tally.earlier ++ calls ∧
        auditedGarbled.stats.tokens = tally.posts ∧
        auditedGarbled.stats.errors = calls.countP Exchange.isRefusal ∧
        calls.countP Exchange.alarming ≤ 2 * auditedGarbled.stats.recoveries := by
  have hstart : isOk (stock.logged.start (.new (), [])) = true := by decide +kernel
  have hposted : isOk (stock.logged.perform (.postAll garbled) newAudited) = true := by
    decide +kernel
  obtain ⟨_, hnew⟩ := eq_ok_of_isOk hstart
  have hobserved : Observed stock _ auditedGarbled :=
    .perform (.postAll garbled) (.start hnew) (completes_of_isOk hposted)
  obtain ⟨calls, hcalls, htokens, herrors, -, hrecovered, -⟩ := accounts_balance hobserved
  have hon : stock.config.recovery ≠ none := by decide
  exact ⟨_, hobserved, by decide +kernel, by decide +kernel, by decide +kernel, by decide +kernel,
    calls, hcalls, htokens, herrors, (hrecovered hon).2.2.2⟩

end Garbled

end ShiftReduce.Engine
