import ShiftReduce.Proofs.Calculator.Faithful
import ShiftReduce.Proofs.Calculator.Trace

namespace ShiftReduce.Calculator

open Engine (Follows bind_of_ok bind_of_error)
open Textbook (decision)

variable {σ : Type}

inductive Decided (actions : Actions σ) (token : Terminal) (value : Value)
    (s : Session (σ × List Mark)) :
    List Cell → EStateM.Result (Halt Fault) (Session (σ × List Mark)) Bool → Prop
  | refused {cell cells} {t : Session (σ × List Mark)} : action cell.state token = .error →
      Running t → t.client.user =
        (s.client.user.1, trace s ++ decision (cell :: cells) token .error) →
      Decided actions token value s (cell :: cells) (.ok true (t.fail true))
  | accepted {cell cells results} {t : Session (σ × List Mark)} :
      action cell.state token = .accept → cell.content.head = .program results → Running t →
      t.client.user = (s.client.user.1, trace s ++ decision (cell :: cells) token .accept) →
      Decided actions token value s (cell :: cells)
        (.ok true { t with accepted := true, result := some (.program results) })
  | shifted {cell cells next} {t : Session (σ × List Mark)} :
      action cell.state token = .shift next → Awaits (⟨next, .value value⟩ :: cell :: cells) t →
      t.client.user = (s.client.user.1, trace s ++ decision (cell :: cells) token (.shift next)) →
      Decided actions token value s (cell :: cells) (.ok true t)
  | reduced {cell cells p work next below c u} {t : Session (σ × List Mark)} :
      action cell.state token = .reduce p → Reduces p (cell :: cells) work next below →
      Works actions work s.client.user.1 c u → Awaits (⟨next, c⟩ :: below) t →
      t.client.user = (u, trace s ++ decision (cell :: cells) token (.reduce p)) →
      potential (next :: below.map Cell.state) < potential ((cell :: cells).map Cell.state) →
      Decided actions token value s (cell :: cells) (.ok false t)
  | broke {cell cells p call next below e u f} {t : Session (σ × List Mark)} :
      action cell.state token = .reduce p → Reduces p (cell :: cells) (.perform call) next below →
      actions.perform call s.client.user.1 = .error e u → t.client.failure = some e →
      t.stack.capacity = none →
      t.client.user = (u, trace s ++ decision (cell :: cells) token (.reduce p)) →
      Decided actions token value s (cell :: cells) (.error (.raised f) t)

variable {actions : Actions σ} {config : Config Terminal} {token : Terminal} {value : Value}
  {cell : Cell} {cells : List Cell} {s t : Session (σ × List Mark)}

section Decisions

theorem user_decision {notice : EngineNotice} {d : Action State Production}
    (hnotice : Mark.of? notice = some (.takes d)) (hs : Shows s.stack.frames cells) :
    ((s.tell (engine actions.traced config) (.deciding s.stack token)).tell
      (engine actions.traced config) notice).client.user =
      (s.client.user.1, trace s ++ decision cells token d) := by
  have hfaces : Mark.of? (.deciding s.stack token) = some (.faces (cells.map Cell.slot) token) := by
    rw [Mark.of?, hs.slots_eq]
  rw [user_mark hnotice (user_mark hfaces rfl), List.append_assoc]
  rfl

theorem shift_decided {next : State} (hs : Awaits (cell :: cells) s)
    (haction : action cell.state token = .shift next) (hshaped : Shaped token value) :
    Decided actions token value s (cell :: cells)
      ((engine actions.traced config).decideToken token value s) := by
  obtain ⟨head, fs, hframes, hstate, -⟩ := hs.shows.cons
  have hshift : (engine actions.traced config).table.action head.state token = .shift next := by
    rw [hstate]
    exact haction
  rw [Engine.decideToken_shift token value hframes hshift]
  generalize hbefore : Session.tally _ _ = before
  have hfollows : Follows (engine actions.traced config) s before :=
    hbefore ▸ (((Follows.refl s).tell _).tell _).tally _ fun _ => rfl
  have huser : before.client.user =
      (s.client.user.1, trace s ++ decision (cell :: cells) token (.shift next)) :=
    hbefore ▸ user_decision rfl hs.shows
  have hrunning := hs.toRunning.follows hfollows
  obtain ⟨t, hpush, ht⟩ :=
    Engine.push_leaves (e := engine actions.traced config) ⟨next, value, 0⟩ before rfl
  have htrace := Engine.observe_of_ok (trace_blind.push ⟨next, value, 0⟩) hpush hrunning.capacity_eq
  rw [bind_of_ok hpush]
  cases ht with
  | crowded hbounded => exact absurd hrunning.capacity_eq hbounded
  | done ht hafter =>
    have hsame : t.client.user = before.client.user := Prod.ext (told_user ht.told) htrace
    have hstack : before.stack.frames = s.stack.frames := by rw [← hbefore]; rfl
    rw [hstack] at hafter
    refine .shifted haction ⟨hrunning.follows ht, hs.proper.shift haction hshaped, ?_⟩
      (hsame.trans huser)
    rw [hafter]
    exact hs.shows.push next value

theorem reduce_decided {p : Production} (hebnf : config.ebnf = true) (hs : Awaits (cell :: cells) s)
    (haction : action cell.state token = .reduce p) :
    Decided actions token value s (cell :: cells)
      ((engine actions.traced config).decideToken token value s) := by
  obtain ⟨head, fs, hframes, hstate, -⟩ := hs.shows.cons
  have hreduce : (engine actions.traced config).table.action head.state token = .reduce p := by
    rw [hstate]
    exact haction
  rw [Engine.decideToken_reduce token value hframes hreduce rfl]
  generalize hbefore : s.reducing _ _ _ _ = before
  have hfollows : Follows (engine actions.traced config) s before := hbefore ▸ .reducing
  have huser : before.client.user =
      (s.client.user.1, trace s ++ decision (cell :: cells) token (.reduce p)) :=
    hbefore ▸ user_decision rfl hs.shows
  have hrunning := hs.toRunning.follows hfollows
  have hshows : Shows before.stack.frames (cell :: cells) := by
    rw [← hbefore]
    exact hs.shows
  obtain ⟨work, next, below, hreduces, -, hnext⟩ := hs.proper.reduces haction
  have hreduced : Reduced actions.traced config work next below before _ :=
    reduce_reduced hebnf hreduces hs.proper.path hshows
  generalize hrun : (engine actions.traced config).reduce p p.rule before = r at hreduced
  cases hreduced with
  | @worked c u frames w hworks hframes hleaves =>
    have htrace := Engine.observe_of_ok (trace_blind.reduce p p.rule) hrun hrunning.capacity_eq
    have hworks' := hworks.of_traced
    rw [huser] at hworks'
    rw [bind_of_ok hrun]
    cases hleaves with
    | crowded hbounded => exact absurd hrunning.capacity_eq hbounded
    | done hw hafter =>
      obtain ⟨hproper, hless⟩ := hnext c hworks.yields
      have hwrunning := (hrunning.serve u).follows hw
      have hwuser : w.client.user = (u.1, trace before) := Prod.ext (told_user hw.told) htrace
      rw [trace, huser] at hwuser
      have hcounted : Follows (engine actions.traced config) w
          (w.tally fun stats => { stats with reductions := stats.reductions + 1 }) :=
        (Follows.refl w).tally _ fun _ => rfl
      have hrest : Decided actions token value s (cell :: cells) (.ok false
          (w.tally fun stats => { stats with reductions := stats.reductions + 1 })) :=
        .reduced haction hreduces hworks'
          ⟨hwrunning.follows hcounted, hproper, hafter ▸ hframes⟩ hwuser hless
      rw [← hwrunning.failed_eq] at hrest
      exact hrest
  | @broke call e u hwork hcall =>
    subst hwork
    obtain ⟨hanswer, hkept⟩ := traced_error hcall
    rw [huser] at hanswer hkept
    rw [bind_of_error hrun]
    exact .broke haction hreduces hanswer rfl hrunning.capacity_eq (Prod.ext rfl hkept)

theorem decideToken_decided (hebnf : config.ebnf = true) (hshaped : Shaped token value)
    (hs : Awaits cells s) : Decided actions token value s cells
      ((engine actions.traced config).decideToken token value s) := by
  cases cells with
  | nil => cases hs.proper.path
  | cons cell cells =>
    obtain ⟨head, fs, hframes, hstate, hvalue⟩ := hs.shows.cons
    have hdeciding : Follows (engine actions.traced config) s
        (s.tell (engine actions.traced config) (.deciding s.stack token)) := (Follows.refl s).tell _
    have htable : (engine actions.traced config).table.action head.state token =
        action cell.state token := by rw [hstate]; rfl
    cases haction : action cell.state token with
    | error =>
      rw [Engine.decideToken_error token value hframes (htable.trans haction)]
      have hcounted := hdeciding.tally
        (fun stats => { stats with errors := stats.errors + 1 }) fun _ => rfl
      exact .refused haction (hs.toRunning.follows (hcounted.tell _)) (user_decision rfl hs.shows)
    | accept =>
      obtain ⟨results, hresults⟩ := hs.proper.program haction
      rw [Engine.decideToken_accept token value hframes (htable.trans haction), hvalue, hresults]
      exact .accepted haction hresults (hs.toRunning.follows (hdeciding.tell .accepting))
        (user_decision rfl hs.shows)
    | shift next => exact shift_decided hs haction hshaped
    | reduce p => exact reduce_decided hebnf hs haction

end Decisions

structure Mirrors (s : Session (σ × List Mark)) (marks : List Mark) (verdict : Verdict) (u : σ)
    (r : EStateM.Result (Halt Fault) (Session (σ × List Mark)) Unit) : Prop where
  reaches : Reaches verdict r
  user_eq : (Engine.final r).client.user = (u, trace s ++ marks)

theorem driveWithin_mirrors (actions : Actions σ) (hebnf : config.ebnf = true)
    (hshaped : Shaped token value) {steps : Nat} (hs : Awaits cells s)
    (hfuel : potential (cells.map Cell.state) < steps) :
    ∃ marks verdict u, Textbook.Reads actions token value cells s.client.user.1 marks verdict u ∧
      Mirrors s marks verdict u
        ((engine actions.traced config).driveWithin token value steps s) := by
  -- The steps suffice because every reduction lowers the potential of the states.
  induction steps generalizing s cells with
  | zero => exact absurd hfuel (Nat.not_lt_zero _)
  | succ steps ih =>
    have hdecided : Decided actions token value s cells
        ((engine actions.traced config).decideToken token value s) :=
      decideToken_decided hebnf hshaped hs
    generalize hrun : (engine actions.traced config).decideToken token value s = r at hdecided
    cases hdecided with
    | refused haction ht huser =>
      rw [driveWithin_settled hrun]
      exact ⟨_, _, _, .refuse haction, .refused ht, huser⟩
    | @accepted cell cells results t haction hresults ht huser =>
      have hreads : Textbook.Reads actions token value (cell :: cells) s.client.user.1 _ _ _ :=
        .accept haction
      rw [hresults] at hreads
      rw [driveWithin_settled hrun]
      exact ⟨_, _, _, hreads, .accepted ht, huser⟩
    | shifted haction ht huser =>
      rw [driveWithin_settled hrun]
      exact ⟨_, _, _, .shift haction, .moved ht, huser⟩
    | reduced haction hreduces hworks ht huser hless =>
      obtain ⟨marks, verdict, u', hreads, hreaches, hend⟩ :=
        ih ht (Nat.lt_of_lt_of_le hless (Nat.le_of_lt_succ hfuel))
      rw [trace, huser] at hend
      rw [huser] at hreads
      rw [driveWithin_unsettled hrun]
      refine ⟨_, verdict, u', .reduce haction hreduces hworks hreads, hreaches, ?_⟩
      rw [hend, List.append_assoc]
    | broke haction hreduces hcall hfailure hcapacity huser =>
      rw [driveWithin_stopped hrun]
      exact ⟨_, _, _, .breaks haction hreduces hcall, .broke hfailure hcapacity, huser⟩

theorem drive_mirrors (actions : Actions σ) (hebnf : config.ebnf = true)
    (hshaped : Shaped token value) (hs : Awaits cells s) :
    ∃ marks verdict u, Textbook.Reads actions token value cells s.client.user.1 marks verdict u ∧
      Mirrors s marks verdict u ((engine actions.traced config).drive token value s) := by
  have hpotential := potential_le (cells.map Cell.state)
  have hdepth := hs.shows.length_le
  rw [List.length_map] at hpotential
  rw [Stack.length_frames] at hdepth
  exact driveWithin_mirrors actions hebnf hshaped hs (show _ < 4 * s.stack.depth + 1 by omega)

end ShiftReduce.Calculator
