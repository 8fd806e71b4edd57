import ShiftReduce.Proofs.Engine.Options
import ShiftReduce.Proofs.Engine.Quiet

namespace ShiftReduce.Engine

variable {S T N P V σ α β γ : Type} {e : Engine S T N P V σ} {observe : Session S V σ → α} {a : α}

structure Discreet (e : Engine S T N P V σ) (observe : Session S V σ → α) : Prop where
  stack : ∀ s stack, observe { s with stack } = observe s
  told : ∀ (notice : Notice S T P V) s, Exchange.of? notice = none →
    observe (s.tell e notice) = observe s
  called : ∀ production args s, observe (final (e.callProvider production args s)) = observe s
  reduced : ∀ s : Session S V σ,
    observe (s.tally fun stats => { stats with reductions := stats.reductions + 1 }) = observe s
  failed : ∀ {s t}, observe s = observe t → s.failed = t.failed

inductive Ended (e : Engine S T N P V σ) (observe : Session S V σ → α) (a : α) (b : β) :
    EStateM.Result (Halt Fault) (Session S V σ) β → Prop
  | halted {halt t} : observe t = a → Ended e observe a b (.error halt t)
  | crashed {u} : observe u = a → Ended e observe a b
      (.error .crash (u.tally fun stats => { stats with shifts := stats.shifts + 1 }))
  | shifted {u t} : observe u = a →
      observe t = observe (u.tally fun stats => { stats with shifts := stats.shifts + 1 }) →
      Ended e observe a b (.ok b t)
  | accepted {u result} : observe u = a →
      Ended e observe a b (.ok b { u with accepted := true, result })
  | refused {u err} : observe u = a → Ended e observe a b
      (.ok b (((u.tally fun stats => { stats with errors := stats.errors + 1 }).tell e
        (.syntaxError err)).fail true))
  | crowded {u err} : observe u = a →
      Ended e observe a b (.ok b ((u.tell e (.stackOverflow err)).fail true))
  | overrun {u err} : observe u = a → Ended e observe a b
      (.ok b (((u.tally fun stats => { stats with shifts := stats.shifts + 1 }).tell e
        (.stackOverflow err)).fail true))

theorem Ended.map {b : β} {c : γ} {x : Run S V σ β} {f : β → Run S V σ γ} {s : Session S V σ}
    (h : Ended e observe a b (x s)) (hf : ∀ t, f b t = .ok c t) :
    Ended e observe a c ((x >>= f) s) := by
  generalize hrun : x s = r at h
  cases h with
  | halted ht =>
    rw [bind_of_error hrun]
    exact .halted ht
  | crashed hu =>
    rw [bind_of_error hrun]
    exact .crashed hu
  | shifted hu ht =>
    rw [bind_of_ok hrun, hf]
    exact .shifted hu ht
  | accepted hu =>
    rw [bind_of_ok hrun, hf]
    exact .accepted hu
  | refused hu =>
    rw [bind_of_ok hrun, hf]
    exact .refused hu
  | crowded hu =>
    rw [bind_of_ok hrun, hf]
    exact .crowded hu
  | overrun hu =>
    rw [bind_of_ok hrun, hf]
    exact .overrun hu

inductive Resolved (e : Engine S T N P V σ) (observe : Session S V σ → α) (a : α) :
    EStateM.Result (Halt Fault) (Session S V σ) Bool → Prop
  | pending {t} : observe t = a → Resolved e observe a (.ok false t)
  | ended {r} : Ended e observe a true r → Resolved e observe a r

namespace Discreet

variable (h : Discreet e observe)

include h

theorem blind : Blind e observe where
  stack := h.stack
  told notice s hnotice := h.told notice s (by cases notice <;> first | rfl | cases hnotice)
  called := h.called

theorem tell {notice : Notice S T P V} (hnotice : Exchange.of? notice = none) :
    Sustains (observe · = a) (e.notify notice) :=
  fun s hs => (h.told notice s hnotice).trans hs

theorem unwindWithin (token : T) (steps : Nat) :
    Sustains (observe · = a) (e.unwindWithin token steps) := by
  induction steps with
  | zero => exact .halt _
  | succ steps ih =>
    apply Sustains.get_bind
    intro s
    split
    · exact (h.tell rfl).bind fun _ => .answer _
    · split
      · exact (h.tell rfl).bind fun _ => .answer _
      · exact (h.blind.popElements 1).bind fun _ => ih

theorem unwind (token : T) : Sustains (observe · = a) (e.unwind token) :=
  .get_bind fun _ => h.unwindWithin token _

variable {s : Session S V σ}

theorem push_ended (frame : Frame S V) (hs : observe s = a) :
    Ended e observe a () (e.push frame
      (s.tally fun stats => { stats with shifts := stats.shifts + 1 })) := by
  by_cases hstate : e.table.hasState frame.state = true
  · rw [e.push_run frame _ hstate]
    cases (s.tally _).stack.push frame with
    | ok stack => exact .shifted hs (h.stack _ stack)
    | error err => exact .overrun hs
  · rw [e.push_crash frame _ hstate]
    exact .crashed hs

variable [Inhabited V]

theorem reduce_resolved (production : P) (rule : Rule N) (hopen : s.failed = false)
    (hs : observe s = a) :
    Resolved e observe a ((e.reduce production rule >>= fun _ => do
      count fun stats => { stats with reductions := stats.reductions + 1 }
      return (← get).failed) s) := by
  have hhushed := h.blind.reduce_hushes production rule s hs
  cases hrun : e.reduce production rule s with
  | error halt t =>
    rw [hrun] at hhushed
    rw [bind_of_error hrun]
    cases hhushed with
    | unseen ht => exact .ended (.halted ht)
  | ok _ t =>
    rw [hrun] at hhushed
    rw [bind_of_ok hrun]
    cases hhushed with
    | unseen ht =>
      have ht : observe t = a := ht
      have hstill : t.failed = false := (h.failed (ht.trans hs.symm)).trans hopen
      have hpending : Resolved e observe a (.ok false (t.tally
          fun stats => { stats with reductions := stats.reductions + 1 })) :=
        .pending ((h.reduced t).trans ht)
      rwa [← hstill] at hpending
    | @crowded _ u err hu _ =>
      exact .ended (.crowded (u := u.tally _) ((h.reduced u).trans hu))

theorem carryOut_resolved (token : T) (value : V) (state : S) (hopen : s.failed = false)
    (hs : observe s = a) : Resolved e observe a (e.carryOut token value state s) := by
  rw [Engine.carryOut]
  cases e.table.action state token with
  | shift next =>
    have htold : observe (s.tell e (.shifting next)) = a := (h.told _ s rfl).trans hs
    exact .ended ((h.push_ended ⟨next, value, 0⟩ htold).map fun _ => rfl)
  | reduce production =>
    refine (Sustains.within _).comes hs (fun _ _ ht => .ended (.halted ht)) fun rule t ht => ?_
    have hstill : t.failed = false := (h.failed (ht.trans hs.symm)).trans hopen
    exact h.reduce_resolved (s := t.tell e (.reducing production rule.label)) production rule hstill
      ((h.told _ t rfl).trans ht)
  | accept => exact .ended (.accepted ((h.told .accepting s rfl).trans hs))
  | error => exact .ended (.refused hs)

theorem decideToken_resolved (token : T) (value : V) (hopen : s.failed = false)
    (hs : observe s = a) : Resolved e observe a (e.decideToken token value s) := by
  rw [decideToken_eq]
  have htold : Sustains (observe · = a) (get >>= fun s => e.notify (.deciding s.stack token)) :=
    .get_bind fun _ => h.tell rfl
  refine htold.comes hs (fun _ _ ht => .ended (.halted ht)) fun _ t ht => ?_
  refine Sustains.topState.comes ht (fun _ _ hu => .ended (.halted hu)) fun state u hu => ?_
  exact h.carryOut_resolved token value state ((h.failed (hu.trans hs.symm)).trans hopen) hu

theorem driveWithin_ended (token : T) (value : V) (steps : Nat) (hopen : s.failed = false)
    (hs : observe s = a) : Ended e observe a () (e.driveWithin token value steps s) := by
  induction steps generalizing s with
  | zero => exact .halted hs
  | succ steps ih =>
    have hresolved := h.decideToken_resolved token value hopen hs
    generalize hrun : e.decideToken token value s = r at hresolved
    cases hresolved with
    | @pending t ht =>
      have hrest : e.driveWithin token value (steps + 1) s = e.driveWithin token value steps t :=
        bind_of_ok hrun
      rw [hrest]
      exact ih ((h.failed (ht.trans hs.symm)).trans hopen) ht
    | ended hended =>
      rw [← hrun] at hended
      exact hended.map fun _ => rfl

theorem drive_ended (token : T) (value : V) (hopen : s.failed = false) :
    Ended e observe (observe s) () (e.drive token value s) :=
  h.driveWithin_ended token value _ hopen rfl

end Discreet

end ShiftReduce.Engine
