import ShiftReduce.Proofs.Calculator.Reduce
import ShiftReduce.Proofs.Engine.Reached

namespace ShiftReduce.Calculator

open Engine (Follows bind_of_ok bind_of_error)

variable {σ : Type} {actions : Actions σ} {config : Config Terminal} {token : Terminal}
  {value : Value}

inductive Drives (actions : Actions σ) (config : Config Terminal) (token : Terminal)
    (value : Value) : Session σ → List Cell → EStateM.Result (Halt Fault) (Session σ) Unit → Prop
  | refused {s t : Session σ} {cell cells} : action cell.state token = .error →
      Follows (engine actions config) s t → Shows t.stack.frames (cell :: cells) →
      Drives actions config token value s (cell :: cells) (.ok () (t.fail true))
  | accepted {s t : Session σ} {cell cells} : action cell.state token = .accept →
      Follows (engine actions config) s t → Shows t.stack.frames (cell :: cells) →
      Drives actions config token value s (cell :: cells)
        (.ok () { t with accepted := true, result := some cell.content.head })
  | shifted {s t : Session σ} {cell cells next} : action cell.state token = .shift next →
      Follows (engine actions config) s t →
      Shows t.stack.frames (⟨next, .value value⟩ :: cell :: cells) →
      Drives actions config token value s (cell :: cells) (.ok () t)
  | crowded {s t : Session σ} {cells} : s.stack.capacity ≠ none →
      Follows (engine actions config) s t →
      Drives actions config token value s cells (.ok () (t.fail true))
  | reduced {s w : Session σ} {cell cells p work next below c u r} :
      action cell.state token = .reduce p → Reduces p (cell :: cells) work next below →
      Works actions work (s.reducing (engine actions config) token p p.rule).client.user c u →
      Follows (engine actions config)
        (serve u (s.reducing (engine actions config) token p p.rule)) w →
      Shows w.stack.frames (⟨next, c⟩ :: below) →
      Drives actions config token value w (⟨next, c⟩ :: below) r →
      Drives actions config token value s (cell :: cells) r
  | overgrown {s w : Session σ} {cell cells p work next below c u} :
      action cell.state token = .reduce p → Reduces p (cell :: cells) work next below →
      Works actions work (s.reducing (engine actions config) token p p.rule).client.user c u →
      s.stack.capacity ≠ none →
      Follows (engine actions config)
        (serve u (s.reducing (engine actions config) token p p.rule)) w →
      Drives actions config token value s (cell :: cells) (.ok () (w.fail true))
  | broke {s : Session σ} {cell cells p call next below e u} :
      action cell.state token = .reduce p → Reduces p (cell :: cells) (.perform call) next below →
      actions.perform call (s.reducing (engine actions config) token p p.rule).client.user =
        .error e u →
      Drives actions config token value s (cell :: cells) (.error (.raised (.action e.message))
        (broken e u (s.reducing (engine actions config) token p p.rule)))

theorem Shows.cons {frames : List (Frame State Value)} {cell : Cell} {cells : List Cell}
    (h : Shows frames (cell :: cells)) :
    ∃ head fs, frames = head :: fs ∧ head.state = cell.state ∧ head.value = cell.content.head := by
  obtain ⟨xs, rfl, hxs⟩ := h
  obtain ⟨x, rest, hx, _, rfl⟩ := List.forall₂_cons_right_iff.mp hxs
  exact ⟨x.head, _, rfl, hx.state_eq, hx.value_eq⟩

theorem Shows.exists_cell {head : Frame State Value} {fs : List (Frame State Value)}
    {cells : List Cell} (h : Shows (head :: fs) cells) :
    ∃ cell rest, cells = cell :: rest ∧ head.state = cell.state := by
  cases cells with
  | nil =>
    obtain ⟨_, hframes, ⟨⟩⟩ := h
    cases hframes
  | cons cell rest =>
    obtain ⟨_, _, hframes, hstate, -⟩ := h.cons
    cases hframes
    exact ⟨cell, rest, rfl, hstate⟩

theorem Shows.push {frames : List (Frame State Value)} {cells : List Cell} (next : State)
    (v : Value) (h : Shows frames cells) :
    Shows (⟨next, v, 0⟩ :: frames) (⟨next, .value v⟩ :: cells) := by
  obtain ⟨xs, rfl, hxs⟩ := h
  exact ⟨⟨next, v, []⟩ :: xs, rfl, .cons (.value next v) hxs⟩

theorem Shows.of_value {frames : List (Frame State Value)} {cells : List Cell} {q : State}
    {v : Value} (h : Shows frames (⟨q, .value v⟩ :: cells)) :
    ∃ fs, frames = ⟨q, v, 0⟩ :: fs ∧ Shows fs cells := by
  obtain ⟨xs, rfl, hxs⟩ := h
  obtain ⟨x, rest, hx, hrest, rfl⟩ := List.forall₂_cons_right_iff.mp hxs
  obtain rfl := hx.of_value
  exact ⟨flatten rest, rfl, rest, rfl, hrest⟩

theorem driveWithin_settled {s t : Session σ} {steps : Nat}
    (h : (engine actions config).decideToken token value s = .ok true t) :
    (engine actions config).driveWithin token value (steps + 1) s = .ok () t := bind_of_ok h

theorem driveWithin_unsettled {s t : Session σ} {steps : Nat}
    (h : (engine actions config).decideToken token value s = .ok false t) :
    (engine actions config).driveWithin token value (steps + 1) s =
      (engine actions config).driveWithin token value steps t := bind_of_ok h

theorem driveWithin_stopped {s t : Session σ} {steps : Nat} {halt : Halt Fault}
    (h : (engine actions config).decideToken token value s = .error halt t) :
    (engine actions config).driveWithin token value (steps + 1) s = .error halt t := bind_of_error h

theorem driveWithin_course (hebnf : config.ebnf = true) {steps : Nat} {s : Session σ}
    {cells : List Cell} (hopen : s.failed = false) (hproper : Proper cells)
    (hs : Shows s.stack.frames cells) (hfuel : potential (cells.map Cell.state) < steps) :
    Drives actions config token value s cells
      ((engine actions config).driveWithin token value steps s) := by
  -- Only reductions go on, and each of them lowers the potential.
  induction steps generalizing s cells with
  | zero => exact absurd hfuel (Nat.not_lt_zero _)
  | succ steps ih =>
    cases cells with
    | nil => cases hproper.path
    | cons cell cells =>
      obtain ⟨head, fs, hframes, hstate, hvalue⟩ := hs.cons
      have htable : ∀ d, action cell.state token = d →
          (engine actions config).table.action head.state token = d := by
        rw [hstate]
        exact fun _ => id
      cases haction : action cell.state token with
      | error =>
        obtain ⟨t, ht, hstack, hrun⟩ := Engine.decide_error (e := engine actions config)
          token value hframes (htable _ haction)
        rw [driveWithin_settled hrun]
        exact .refused haction ht (hstack ▸ hs)
      | accept =>
        obtain ⟨t, ht, hstack, hrun⟩ := Engine.decide_accept (e := engine actions config)
          token value hframes (htable _ haction)
        rw [driveWithin_settled hrun, hvalue]
        exact .accepted haction ht (hstack ▸ hs)
      | shift next =>
        obtain ⟨t, hrun, ht⟩ := Engine.decide_shift (e := engine actions config)
          token value hframes (htable _ haction) rfl
        rw [driveWithin_settled hrun]
        cases ht with
        | done ht htframes => exact .shifted haction ht (htframes ▸ hs.push next value)
        | crowded hcapacity ht => exact .crowded hcapacity ht
      | reduce p =>
        obtain ⟨hok, herror⟩ := Engine.decide_reduce (e := engine actions config)
          token value hframes (htable _ haction) rfl
        obtain ⟨work, next, below, hreduces, _, hnext⟩ := hproper.reduces haction
        have hreduced : Reduced actions config work next below
            (s.reducing (engine actions config) token p p.rule) _ :=
          reduce_reduced hebnf hreduces hproper.path hs
        generalize hreduce : (engine actions config).reduce p p.rule _ = r at hreduced
        cases hreduced with
        | @worked c u frames w hworks hshows hleaves =>
          have hrun := hok w hreduce
          cases hleaves with
          | done hw hwframes =>
            have hwopen : w.failed = false := hw.failed_eq.trans hopen
            have hwshows := hwframes ▸ hshows
            obtain ⟨hwproper, hless⟩ := hnext c hworks.yields
            rw [hwopen] at hrun
            rw [driveWithin_unsettled hrun]
            have hcounted := hw.tally
              (fun stats => { stats with reductions := stats.reductions + 1 }) fun _ => rfl
            exact .reduced haction hreduces hworks hcounted hwshows
              (ih hwopen hwproper hwshows (Nat.lt_of_lt_of_le hless (Nat.le_of_lt_succ hfuel)))
          | crowded hcapacity hw =>
            rw [driveWithin_settled hrun]
            have hcounted := hw.tally
              (fun stats => { stats with reductions := stats.reductions + 1 }) fun _ => rfl
            exact .overgrown haction hreduces hworks hcapacity hcounted
        | broke hwork hcall =>
          subst hwork
          rw [driveWithin_stopped (herror _ _ hreduce)]
          exact .broke haction hreduces hcall

theorem drive_course (hebnf : config.ebnf = true) {s : Session σ} {cells : List Cell}
    (hopen : s.failed = false) (hproper : Proper cells) (hs : Shows s.stack.frames cells) :
    Drives actions config token value s cells ((engine actions config).drive token value s) := by
  have hpotential := potential_le (cells.map Cell.state)
  have hdepth := hs.length_le
  rw [List.length_map] at hpotential
  rw [Stack.length_frames] at hdepth
  exact driveWithin_course hebnf hopen hproper hs
    (show _ < 4 * s.stack.depth + 1 by omega)

section Beginning

theorem fresh_shows {s : Session σ} (h : (engine actions config).Fresh s) :
    Shows s.stack.base.items [⟨.start, .value .nothing⟩] := by
  rw [h.base_eq]
  exact ⟨[⟨.start, .nothing, []⟩], rfl, .cons (.value _ _) .nil⟩

theorem begin_fresh (actions : Actions σ) (hroom : Stack.HasRoom config.capacity 0) (user : σ) :
    ∃ s, (engine actions config).begin (Client.new user) = .ok () s ∧
      (engine actions config).Fresh s ∧ s.Settled ∧ s.stack.capacity = config.capacity ∧
      s.client = Client.new user := by
  obtain ⟨s, hreset, hfresh, hcapacity, hclient⟩ := Engine.reset_fresh (e := engine actions config)
    ((engine actions config).blank (Client.new user)) rfl hroom
  have hsettled : s.Settled := by
    apply Engine.reset_settled (e := engine actions config)
    rw [hreset]
    exact .answered
  exact ⟨s, hreset, hfresh, hsettled, hcapacity, hclient⟩

theorem start_fresh (actions : Actions σ) (hcapacity : config.capacity = none) (user : σ) :
    ∃ s, start actions config user = .ok () s ∧ (engine actions config).Fresh s ∧ s.Settled ∧
      s.stack.capacity = none ∧ s.client = Client.new user := by
  obtain ⟨s, hbegin, hfresh, hsettled, hsame, hclient⟩ :=
    begin_fresh actions (.of_unbounded hcapacity 0) user
  have hroom : Stack.reservable (engine actions config).frameSize config.capacity = true := by
    rw [hcapacity]
    rfl
  exact ⟨s, Engine.start_of_begin hroom hbegin, hfresh, hsettled, hsame.trans hcapacity, hclient⟩

end Beginning

end ShiftReduce.Calculator
