import ShiftReduce.Proofs.Calculator.Advance

namespace ShiftReduce.Calculator

variable {σ : Type} {actions : Actions σ} {config : Config Terminal} {token : Terminal}
  {value : Value} {us : List Value} {cells : List Cell} {s t : Session σ}

/-- The sessions that may be met. An input may be left for another at any point, and the client may
be exchanged. -/
inductive Visited (actions : Actions σ) (config : Config Terminal) : Session σ → Prop
  | start (user : σ) : Visited actions config (Engine.final (start actions config user))
  | post {s : Session σ} {token : Terminal} {value : Value} : Shaped token value →
      Visited actions config s →
      Visited actions config (Engine.final ((engine actions config).post token value s))
  | reset {s : Session σ} : Visited actions config s →
      Visited actions config (Engine.final ((engine actions config).reset s))
  | take {s : Session σ} : Visited actions config s →
      Visited actions config (Engine.final (Engine.take s))
  | attend {s : Session σ} (client : Client σ) : Visited actions config s →
      Visited actions config { s with client }

def posted (actions : Actions σ) (config : Config Terminal) (s : Session σ) (w : Word) :
    Session σ :=
  w.foldl (fun s tv => Engine.final ((engine actions config).post tv.1 tv.2 s)) s

theorem Visited.posted {w : Word} (h : Visited actions config s)
    (hw : ∀ tv ∈ w, Shaped tv.1 tv.2) : Visited actions config (posted actions config s w) := by
  induction w generalizing s with
  | nil => exact h
  | cons tv w ih =>
    obtain ⟨htv, hw⟩ := List.forall_mem_cons.mp hw
    exact ih (.post htv h) hw

section Calculations

variable {α β : Type}

def Roams (actions : Actions σ) (config : Config Terminal) (x : Calculation σ α) : Prop :=
  ∀ s, Visited actions config s → Visited actions config (Engine.final (x s))

theorem Roams.bind {x : Calculation σ α} {f : α → Calculation σ β}
    (hx : Roams actions config x) (hf : ∀ a, Roams actions config (f a)) :
    Roams actions config (x >>= f) := by
  intro s hs
  rcases Engine.final_bind x f s with h | ⟨a, h⟩
  · rw [h]
    exact hx s hs
  · rw [h]
    exact hf a _ (hx s hs)

theorem Roams.liftRun {run : Run State Value (Client σ) α}
    (h : ∀ s, Visited actions config s → Visited actions config (Engine.final (run s))) :
    Roams actions config (Calculator.liftRun run) := by
  intro s hs
  have hrun := h s hs
  rw [Calculator.liftRun]
  revert hrun
  rcases run s with ⟨a, t⟩ | ⟨f | _ | _, t⟩
  · exact id
  · intro hrun
    dsimp only
    rw [surface]
    split
    · exact hrun.attend _
    · exact hrun
  · exact id
  · exact id

theorem modifyClient_roams (f : Client σ → Client σ) : Roams actions config (modifyClient f) :=
  fun _ hs => hs.attend _

theorem feed_roams {lexemes : List Lexeme} (hlexemes : ∀ l ∈ lexemes, Legible l) :
    Roams actions config (feed actions config lexemes) := by
  induction lexemes with
  | nil => exact fun _ hs => hs
  | cons l rest ih =>
    obtain ⟨hl, hrest⟩ := List.forall_mem_cons.mp hlexemes
    cases l with
    | error e => exact fun _ hs => hs
    | ok l =>
      have hpost : Roams actions config (postToken actions config l) :=
        (modifyClient_roams _).bind fun _ => (modifyClient_roams _).bind fun _ =>
          .liftRun fun _ hs => .post hl hs
      refine hpost.bind fun closed => ?_
      cases closed with
      | true => exact fun _ hs => hs
      | false => exact ih hrest

theorem conclude_roams : Roams actions config (conclude : Calculation σ Outcome) := by
  intro s hs
  have htake : Roams actions config (liftRun Engine.take : Calculation σ (Option Value)) :=
    .liftRun fun _ hs => .take hs
  rw [conclude_eq]
  refine htake.bind (fun v => ?_) _ (hs.attend _)
  rcases v with _ | _ | _ <;> exact fun _ hs => hs

theorem served_visited (user : σ) (history : List String) :
    Visited actions config (served actions config user history) := by
  rw [served]
  have hstart : Visited actions config (Engine.final (start actions config user)) := .start user
  generalize Engine.final (start actions config user) = s at hstart
  induction history generalizing s with
  | nil => exact hstart
  | cons source rest ih =>
    have hparse : Roams actions config (parse actions config source) :=
      (Roams.liftRun fun _ hs => .reset hs).bind fun _ => (modifyClient_roams _).bind fun _ =>
        (feed_roams (Lexer.scan_legible 0 source.toList)).bind fun _ => conclude_roams
    exact ih _ (hparse s hstart)

end Calculations

structure Upheld (config : Config Terminal) (s : Session σ) : Prop where
  settled : s.Settled
  capacity_eq : s.stack.capacity = config.capacity
  bears : s.closed = false →
    ∃ us cells, Bears us cells s ∧ (0 < s.stats.tokens → handler cells ≠ [])

theorem Upheld.of_stack (h : Upheld config s) (hstack : t.stack = s.stack)
    (hclosed : t.closed = s.closed) (hstats : t.stats = s.stats) : Upheld config t := by
  refine ⟨h.settled.of_stack hstack, hstack ▸ h.capacity_eq, fun hopen => ?_⟩
  obtain ⟨us, cells, hbears, hhandler⟩ := h.bears (hclosed.symm.trans hopen)
  exact ⟨us, cells, hbears.of_base (congrArg Stack.base hstack), hstats ▸ hhandler⟩

theorem upheld_reset (hcapacity : s.stack.capacity = config.capacity) :
    Upheld config (Engine.final ((engine actions config).reset s)) := by
  have hrun := Engine.reset_run (e := engine actions config) s rfl
  have hkept := Engine.reset_capacity (engine actions config) s
  -- Where there is no room for the start, the session is closed at once and bears nothing.
  rcases Stack.hasRoom_or_full s.stack.capacity 0 with hroom | ⟨n, hn, hfull⟩
  · obtain ⟨t, hreset, hfresh, -⟩ :=
      Engine.reset_fresh (e := engine actions config) s rfl hroom
    have htokens : t.stats.tokens = 0 := by
      rw [hrun] at hreset
      split at hreset <;> cases hreset <;> rfl
    have hcompletes : Engine.Completes ((engine actions config).reset s) t := by
      rw [hreset]
      exact .answered
    rw [hreset] at hkept ⊢
    refine ⟨Engine.reset_settled hcompletes, hkept.trans hcapacity, fun _ => ?_⟩
    refine ⟨[], _, ⟨.start, .start, fresh_shows hfresh⟩, fun h => ?_⟩
    cases htokens ▸ h
  · rw [hrun] at hkept ⊢
    refine ⟨.commit _, hkept.trans hcapacity, fun hopen => ?_⟩
    have hpush : (Engine.cleared s).stack.push _ = _ :=
      Stack.push_of_full (a := (⟨State.start, default, 0⟩ : Frame State Value)) hn hfull
    rw [show (engine actions config).table.start = State.start from rfl, hpush] at hopen
    cases hopen

theorem Upheld.post (h : Upheld config s) (hconfig : Sane config) (hshaped : Shaped token value) :
    Upheld config (Engine.final ((engine actions config).post token value s)) := by
  have hcapacity := Engine.post_capacity (engine actions config) token value s
  cases hclosed : s.closed with
  | true =>
    rw [Engine.post_of_closed hclosed]
    exact h
  | false =>
    obtain ⟨us, cells, hbears, -⟩ := h.bears hclosed
    obtain ⟨t, hadvances, hsettled, hpost⟩ := post_advances hconfig hshaped hbears hclosed
    have hfinal : Engine.final ((engine actions config).post token value s) = t := by
      rcases hpost with hpost | ⟨f, hpost, -⟩ <;> rw [hpost] <;> rfl
    rw [hfinal] at hcapacity ⊢
    refine ⟨hsettled, hcapacity.trans h.capacity_eq, fun hopen => ?_⟩
    obtain ⟨haccepted, hfailed⟩ := Bool.or_eq_false_iff.mp hopen
    cases hadvances with
    | accepted _ _ haccepted' => cases haccepted.symm.trans haccepted'
    | closed _ hfailed' => cases hfailed.symm.trans hfailed'
    | moved _ _ _ _ hbears' hhandler => exact ⟨_, _, hbears', fun _ => hhandler⟩

theorem Visited.upheld (h : Visited actions config s) (hconfig : Sane config) :
    Upheld config s := by
  induction h with
  | start user =>
    rw [Calculator.start, Engine.final_start]
    exact upheld_reset rfl
  | post hshaped _ ih => exact ih.post hconfig hshaped
  | reset _ ih => exact upheld_reset ih.capacity_eq
  | take _ ih =>
    rw [Engine.take_run]
    split <;> exact ih.of_stack rfl rfl rfl
  | attend client _ ih => exact ih.of_stack rfl rfl rfl

/-- The statement on top of the frames is complete. An empty one comes to nothing, and another to
what the actions make of it when the token has it reduced in the session. -/
inductive Pending (actions : Actions σ) (config : Config Terminal) (token : Terminal)
    (s : Session σ) : List (Frame State Value) → Value → Prop
  | empty {frame below} : frame.state = .emptyStatement →
      Pending actions config token s (frame :: below) .nothing
  | evaluated {frame operand below n result u} : frame.state = .closedStatement →
      operand.value = .number n →
      actions.statement n (s.reducing (engine actions config) token .evaluated
        Production.evaluated.rule).client.user = .ok result u →
      Pending actions config token s (frame :: operand :: below) (.statement result)
  | skipped {frame below} : frame.state = .skipped →
      Pending actions config token s (frame :: below) (.statement (actions.recovered
        (s.reducing (engine actions config) token .skipped
          Production.skipped.rule).client.user).1)
  | reduced {frame below} : frame.state = .statement →
      Pending actions config token s (frame :: below) frame.value

/-- The statements of a session with the one that the token completes. They stay as they are only
if no statement is complete on top of the frames. -/
inductive Gathers (actions : Actions σ) (config : Config Terminal) (token : Terminal)
    (s : Session σ) : List Value → Prop
  | same : (∀ frame ∈ s.stack.frames.head?, frame.state.complete = false) →
      Gathers actions config token s (statements s.stack.frames)
  | one {v : Value} : Pending actions config token s.opened s.stack.frames v →
      Gathers actions config token s (statements s.stack.frames ++ [v])

theorem Actions.perform_statement {n : Int} {u u' : σ} {v : Value}
    (h : actions.perform (.statement n) u = .ok v u') :
    ∃ result, actions.statement n u = .ok result u' ∧ v = .statement result := by
  rw [Actions.perform, map_eq_pure_bind] at h
  obtain ⟨result, u'', hresult, hv⟩ := Engine.exists_of_bind_ok h
  cases hv
  exact ⟨result, hresult, rfl⟩

theorem Reduces.asks {p : Production} {work : Work} {next : State} {below : List Cell}
    (h : Reduces p cells work next below) : ∃ contents, Asks p contents work := by
  obtain ⟨-, hasks, -⟩ := h
  exact ⟨_, hasks⟩

theorem Reduces.of_evaluated {work : Work} {next : State} {below : List Cell}
    (h : Reduces .evaluated cells work next below) :
    ∃ closing q n rest, cells = closing :: ⟨q, .value (.number n)⟩ :: rest ∧
      work = .perform (.statement n) := by
  obtain @⟨top, r, below, _, _, htop, hasks, -⟩ := h
  obtain ⟨closing, ⟨q, c⟩, rfl⟩ := List.length_eq_two.mp (length_top htop)
  have hasks : Asks .evaluated [c, closing.content] work := hasks
  cases hasks
  exact ⟨closing, q, _, _, rfl, rfl⟩

theorem Finishes.pending {frames : List (Frame State Value)} {v : Value}
    (h : Finishes actions config token s cells v) (hproper : Proper cells)
    (hs : Shows frames cells) : Pending actions config token s frames v := by
  cases h with
  | reduced =>
    obtain ⟨fs, rfl, -⟩ := hs.of_value
    exact @Pending.reduced _ _ _ _ _ ⟨.statement, v, 0⟩ fs rfl
  | @reduces cell rest p work below v u haction hreduces hworks =>
    have hfits := hproper.fits cell List.mem_cons_self
    obtain ⟨-, hhome⟩ := home_of_reduce haction
    obtain ⟨q, c⟩ := cell
    have hp := hreduces.mem_of_statement
    simp only [List.mem_cons, List.not_mem_nil, or_false] at hp
    obtain rfl : q = p.home := hhome
    -- A statement comes of an expression and its end, of what was skipped, or of nothing.
    rcases hp with rfl | rfl | rfl
    · obtain ⟨_, r, n, below, hcells, rfl⟩ := hreduces.of_evaluated
      obtain ⟨rfl, rfl⟩ := List.cons.inj hcells
      cases hfits with
      | token =>
        obtain ⟨fs, rfl, hfs⟩ := hs.of_value
        obtain ⟨fs, rfl, -⟩ := hfs.of_value
        cases hworks with
        | perform hcall =>
          obtain ⟨result, hresult, rfl⟩ := Actions.perform_statement hcall
          exact .evaluated rfl rfl hresult
    · obtain ⟨head, fs, rfl, hstate, -⟩ := hs.cons
      obtain ⟨_, hasks⟩ := hreduces.asks
      cases hasks
      cases hworks with
      | perform hcall =>
        cases hcall
        exact .skipped hstate
    · obtain ⟨head, fs, rfl, hstate, -⟩ := hs.cons
      obtain ⟨_, hasks⟩ := hreduces.asks
      cases hasks
      cases hworks
      exact .empty hstate

theorem Extends.gathers {us' : List Value} (h : Extends actions config token s.opened cells us us')
    (hbears : Bears us cells s) (hs : s.Settled) : Gathers actions config token s us' := by
  have hshows := hbears.shows_frames hs
  have hstatements := hbears.statements_eq hs
  cases h with
  | same hnone =>
    rw [← hstatements]
    refine .same fun frame hframe => ?_
    obtain ⟨fs, hframes⟩ := List.head?_eq_some_iff.mp hframe
    rw [hframes] at hshows
    obtain ⟨cell, rest, rfl, hstate⟩ := hshows.exists_cell
    rw [completed_cons, ← hstate] at hnone
    simpa using hnone
  | one hv =>
    rw [← hstatements]
    exact .one (hv.pending hbears.proper hshows)

/-- The statements are only ever appended to. A post that does not accept has those from before in
front of those that it leaves, however it ends. One that accepts gives them out with the statement
that it completes, if there is one. -/
theorem post_appends (hconfig : Sane config) (hs : Visited actions config s)
    (hshaped : Shaped token value) :
    let t := Engine.final ((engine actions config).post token value s)
    (t.accepted = s.accepted → statements s.stack.frames <+: statements t.stack.frames) ∧
      (s.accepted = false → t.accepted = true → actions.program = pure →
        ∃ us, Gathers actions config token s us ∧
          Engine.accepted? t = some (.program (us.filterMap Value.asStatement?))) := by
  intro t
  have hupheld := hs.upheld hconfig
  cases hclosed : s.closed with
  | true =>
    have ht : t = s := congrArg Engine.final (Engine.post_of_closed hclosed)
    rw [ht]
    refine ⟨fun _ => List.prefix_rfl, fun hopen haccepted => ?_⟩
    cases hopen.symm.trans haccepted
  | false =>
    obtain ⟨us, cells, hbears, -⟩ := hupheld.bears hclosed
    obtain ⟨t', hadvances, hsettled, hpost⟩ := post_advances hconfig hshaped hbears hclosed
    have ht : t = t' := by
      rcases hpost with hpost | ⟨f, hpost, -⟩ <;> exact congrArg Engine.final hpost
    rw [ht, hbears.statements_eq hupheld.settled]
    obtain ⟨hopen, -⟩ := Bool.or_eq_false_iff.mp hclosed
    rw [hopen]
    cases hadvances with
    | accepted _ hfailed haccepted hextends hresult =>
      refine ⟨fun h => (by cases haccepted.symm.trans h), fun _ _ hpure => ?_⟩
      refine ⟨_, hextends.gathers hbears hupheld.settled, ?_⟩
      rw [Engine.accepted?, haccepted, hfailed]
      exact hresult hpure
    | moved _ _ haccepted hprefix hbears' =>
      refine ⟨fun _ => ?_, fun _ h => (by cases haccepted.symm.trans h)⟩
      rw [hbears'.statements_eq hsettled]
      exact hprefix
    | closed _ _ haccepted hbears' =>
      refine ⟨fun _ => ?_, fun _ h => (by cases haccepted.symm.trans h)⟩
      exact hbears'.statements_eq hsettled ▸ List.prefix_rfl

section Skipped

def halfway : Session Unit :=
  posted Evaluator.actions defaultConfig (Engine.final (start Evaluator.actions defaultConfig ()))
    [(.int, .number 1), (.int, .number 2), (.semicolon, .nothing), (.int, .number 3),
      (.semicolon, .nothing)]

theorem halfway_visited : Visited Evaluator.actions defaultConfig halfway := by
  refine (Visited.start ()).posted fun tv hmem => ?_
  simp only [List.mem_cons, List.not_mem_nil, or_false] at hmem
  rcases hmem with rfl | rfl | rfl | rfl | rfl
  all_goals first | exact .int _ | exact .mark nofun nofun

def finished : Session Unit :=
  Engine.final ((engine Evaluator.actions defaultConfig).post .eof .nothing halfway)

theorem post_appends_skipped : Engine.accepted? finished = some (.program [none, some 3]) ∧
    statements halfway.stack.frames = [.statement none] ∧
    ∃ us, Gathers Evaluator.actions defaultConfig .eof halfway us ∧
      us.filterMap Value.asStatement? = [none, some 3] := by
  have hfolded : statements halfway.stack.frames = [.statement none] := by decide +kernel
  have hopen : halfway.accepted = false := by decide +kernel
  have haccepted : finished.accepted = true := by decide +kernel
  have hvalue : Engine.accepted? finished = some (.program [none, some 3]) := by decide +kernel
  have heof : Shaped .eof .nothing := .mark nofun nofun
  obtain ⟨us, hgathers, hus⟩ := (post_appends ⟨rfl, fun _ h => (Option.some.inj h).symm⟩
    halfway_visited heof).2 hopen haccepted rfl
  have hresults := Option.some.inj (hvalue.symm.trans hus)
  exact ⟨hvalue, hfolded, us, hgathers, (Value.program.inj hresults).symm⟩

end Skipped

end ShiftReduce.Calculator
