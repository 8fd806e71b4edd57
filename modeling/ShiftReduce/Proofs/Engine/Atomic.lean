import ShiftReduce.Calculator.Parser
import ShiftReduce.Proofs.Engine.Reached
import ShiftReduce.Proofs.Engine.Unwind

namespace ShiftReduce.Calculator

def stock : Engine State Terminal Nonterminal Production Value (Client Unit) :=
  engine Evaluator.actions defaultConfig

end ShiftReduce.Calculator

namespace ShiftReduce.Engine

variable {S T N P V σ : Type} [Inhabited V]

section Resumption

variable (e : Engine S T N P V σ)

/-- The session in which the recovery token is driven after a failure that has left `s`, and the one
in which it is taken; `none` when no state handles errors or the token is not taken. -/
def resumption (recovery : T) (s : Session S V σ) : Option (Session S V σ × Session S V σ) :=
  match e.unwind recovery s.reopened with
  | .ok true handler =>
    match e.drive recovery default handler with
    | .ok () taken => if taken.failed then none else some (handler, taken)
    | .error _ _ => none
  | _ => none

def postResumption (token : T) (value : V) (s : Session S V σ) :
    Option (Session S V σ × Session S V σ) :=
  match e.config.recovery, e.drive token value s.opened with
  | some recovery, .ok () refused =>
    if refused.failed then e.resumption recovery refused else none
  | _, _ => none

/-- What is left of `before` is `before`, unless the recovery token was taken: then it was driven
from the handler that `before` exposes, and its frames are left. -/
def Restores (before left : List (Frame S V)) :
    Option (Session S V σ × Session S V σ) → Prop
  | none => left = before
  | some (handler, taken) =>
    exposed e.table.handlesError before = some handler.stack.frames ∧ left = taken.stack.frames

end Resumption

variable {e : Engine S T N P V σ} {token recovery : T} {value : V} {s t : Session S V σ}

theorem drive_base {r : EStateM.Result (Halt Fault) (Session S V σ) Unit}
    (h : e.drive token value s = r) : (final r).stack.base = s.stack.base := by
  rw [← h]
  exact (KeepsBase.drive e token value s).base_eq

omit [Inhabited V] in
theorem unwind_base {r : EStateM.Result (Halt Fault) (Session S V σ) Bool}
    (h : e.unwind token s = r) : (final r).stack.base = s.stack.base := by
  rw [← h]
  exact (KeepsBase.unwind e token s).base_eq

def Fails (r : EStateM.Result (Halt Fault) (Session S V σ) Unit) : Prop :=
  ∀ t, r = .ok () t → t.failed = true

omit [Inhabited V] in
theorem not_fails_of_ok (h : t.failed = false) : ¬ Fails (.ok () t) := by
  intro hr
  have := hr t rfl
  rw [h] at this
  cases this

theorem Reposts.base {r : EStateM.Result (Halt Fault) (Session S V σ) Unit}
    (h : Reposts e token value s r) (hr : Fails r) : (final r).stack.base = s.stack.base := by
  cases h with
  | halted hdrive =>
    have hbase := drive_base hdrive
    exact hbase
  | taken hdrive hfailed => exact absurd hr (not_fails_of_ok hfailed)
  | endKept hdrive =>
    have hbase := drive_base hdrive
    exact hbase
  | discarded => exact absurd hr (not_fails_of_ok rfl)

theorem Recovers.restores {r : EStateM.Result (Halt Fault) (Session S V σ) Unit}
    (h : Recovers e token value recovery s r) (hr : Fails r) :
    e.Restores s.stack.base.items (final r).stack.base.items (e.resumption recovery s) := by
  cases h with
  | unwindHalted hunwind =>
    have hbase := unwind_base hunwind
    simp only [resumption, hunwind]
    exact congrArg Pile.items hbase
  | unhandled hunwind =>
    have hbase := unwind_base hunwind
    simp only [resumption, hunwind]
    exact congrArg Pile.items hbase
  | halted hunwind hdrive =>
    have hbase := (drive_base hdrive).trans (unwind_base hunwind)
    simp only [resumption, hunwind, hdrive]
    exact congrArg Pile.items hbase
  | refused hunwind hdrive hfailed =>
    have hbase := (drive_base hdrive).trans (unwind_base hunwind)
    simp only [resumption, hunwind, hdrive, if_pos hfailed]
    exact congrArg Pile.items hbase
  | resumed hunwind hdrive hfailed hrepost =>
    have hexposed := unwind_exposed e recovery hunwind
    have hbase := hrepost.base hr
    simp only [resumption, hunwind, hdrive, hfailed]
    exact ⟨hexposed, congrArg Pile.items hbase⟩

theorem Settles.restores {r : EStateM.Result (Halt Fault) (Session S V σ) Unit}
    (h : Settles e token value s r) (hr : Fails r) :
    e.Restores s.stack.base.items (final r).stack.base.items (e.postResumption token value s) := by
  cases h with
  | halted hdrive =>
    have hbase := drive_base hdrive
    have hnone : e.postResumption token value s = none := by
      rw [postResumption, hdrive]
      cases e.config.recovery <;> rfl
    rw [hnone]
    exact congrArg Pile.items hbase
  | taken hdrive hfailed => exact absurd hr (not_fails_of_ok hfailed)
  | failed hdrive hfailed hrecovery =>
    have hbase := drive_base hdrive
    simp only [postResumption, hrecovery]
    exact congrArg Pile.items hbase
  | recovered hdrive hfailed hrecovery hrecover =>
    have hbase := drive_base hdrive
    have hrestores := hrecover.restores hr
    simp only [postResumption, hrecovery, hdrive, if_pos hfailed]
    rw [show s.stack.base = _ from hbase.symm]
    exact hrestores

/-- A post that fails in an open session, by a syntax error, an overflow or a fault, leaves the
session failed and settled, with the frames it found; if the recovery token was taken on the way,
with the frames that then were left. -/
theorem post_restores [DecidableEq T] (hs : Reached e s) (hopen : s.closed = false)
    (token : T) (value : V) {t : Session S V σ}
    (hfails : (∃ closed, e.post token value s = .ok closed t ∧ t.failed = true) ∨
      ∃ f, e.post token value s = .error (.raised f) t) :
    t.failed = true ∧ t.stack.pendingDepth = 0 ∧ t.stack.base.items = t.stack.frames ∧
      e.Restores s.stack.frames t.stack.frames (e.postResumption token value s) := by
  have hcourse := post_course e token value s
  rw [hs.settled.frames_eq]
  rcases hfails with ⟨closed, hpost, hfailed⟩ | ⟨f, hpost⟩
  · rw [hpost] at hcourse
    cases hcourse with
    | answered _ hsettle =>
      have ht := hsettle.settled
      refine ⟨hfailed, ht.pendingDepth_eq, ht.frames_eq.symm, ?_⟩
      rw [ht.frames_eq]
      refine hsettle.restores fun u hu => ?_
      cases hu
      exact hfailed
  · rw [hpost] at hcourse
    cases hcourse with
    | refused hclosed =>
      rw [hopen] at hclosed
      cases hclosed
    | aborted _ hsettle => exact ⟨rfl, rfl, rfl, hsettle.restores nofun⟩

section Unfinished

open Calculator (stock)

def newSession : Calculator.Session Unit := final (stock.start (.new ()))

def unfinished : Calculator.Session Unit :=
  final (stock.perform (.postAll [(.int, .number 1), (.plus, .nothing)]) newSession)

theorem reached_unfinished : Reached stock unfinished := by
  have hstart : isOk (stock.start (.new ())) = true := by decide +kernel
  have hposted : isOk (stock.perform (.postAll [(.int, .number 1), (.plus, .nothing)])
      newSession) = true := by decide +kernel
  obtain ⟨_, hnew⟩ := eq_ok_of_isOk hstart
  exact .perform _ (.start hnew) (completes_of_isOk hposted)

theorem post_restores_unfinished :
    Reached stock unfinished ∧ unfinished.closed = false ∧
      unfinished.stack.frames.map Frame.state = [.plus, .expression, .statements, .start] ∧
      ∃ t, (∃ closed, stock.post .eof .nothing unfinished = .ok closed t ∧ t.failed = true) ∧
        t.stack.frames.map Frame.state = [.skipping, .statements, .start] ∧
        t.stack.pendingDepth = 0 ∧ t.stack.base.items = t.stack.frames ∧
        stock.Restores unfinished.stack.frames t.stack.frames
          (stock.postResumption .eof .nothing unfinished) := by
  have hopen : unfinished.closed = false := by decide +kernel
  have hok : isOk (stock.post .eof .nothing unfinished) = true := by decide +kernel
  have hfailed : (final (stock.post .eof .nothing unfinished)).failed = true := by decide +kernel
  have hstates : (final (stock.post .eof .nothing unfinished)).stack.frames.map Frame.state =
      [.skipping, .statements, .start] := by decide +kernel
  obtain ⟨closed, hpost⟩ := eq_ok_of_isOk hok
  revert hpost hfailed hstates
  generalize final (stock.post .eof .nothing unfinished) = t
  intro hfailed hstates hpost
  have hrestores :=
    post_restores reached_unfinished hopen .eof .nothing (.inl ⟨closed, hpost, hfailed⟩)
  exact ⟨reached_unfinished, hopen, by decide +kernel, t, ⟨closed, hpost, hfailed⟩, hstates,
    hrestores.2⟩

end Unfinished

end ShiftReduce.Engine
