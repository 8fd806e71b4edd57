import ShiftReduce.Proofs.Calculator.Lockstep

namespace ShiftReduce.Calculator

open Engine (Follows)

variable {σ : Type} {actions : Actions σ} {config : Config Terminal} {token : Terminal}
  {value : Value} {cells : List Cell} {s : Session (σ × List Mark)}
  {r : EStateM.Result (Halt Fault) (Session (σ × List Mark)) Unit}

section Posts

variable (hconfig : Sane config) (hshaped : Shaped token value)

include hconfig hshaped

theorem reposts_mirrors (h : Engine.Reposts (engine actions.traced config) token value s r)
    (hs : Awaits cells s) (hsettled : s.Settled) :
    ∃ marks verdict u,
      Textbook.Offers actions config token value cells s.client.user.1 marks verdict u ∧
        Mirrors s marks verdict u r := by
  have htold : Awaits cells (s.tell (engine actions.traced config) (.reposting token)) :=
    hs.of_frames ⟨hs.failed_eq, hs.accepted_eq, hs.capacity_eq⟩ rfl
  have huser : (s.tell (engine actions.traced config) (.reposting token)).client.user =
    (s.client.user.1, trace s ++ [.offers token]) := user_tell (.reposting token) s
  obtain ⟨marks, verdict, u, hreads, hreaches, hend⟩ :=
    drive_mirrors actions hconfig.ebnf hshaped htold
  have hbase := Engine.KeepsBase.drive (engine actions.traced config) token value
    (s.tell (engine actions.traced config) (.reposting token))
  rw [huser] at hreads
  rw [trace, huser, List.append_assoc] at hend
  generalize hdrive : (engine actions.traced config).drive token value _ = driven
    at hreaches hend hbase
  cases hreaches with
  | @broke t e f hfailure hcapacity =>
    obtain rfl := h.eq_halted hdrive
    exact ⟨_, .broke e, u, .read (by simp) hreads, .broke hfailure hcapacity, hend⟩
  | @accepted t results ht =>
    obtain rfl := h.eq_taken hdrive ht.failed_eq
    have hcommitted : Running t.commit := ⟨ht.failed_eq, ht.accepted_eq, ht.capacity_eq⟩
    exact ⟨_, .accepted _, u, .read (by simp) hreads, .accepted hcommitted, hend⟩
  | @moved t cells' ht =>
    obtain rfl := h.eq_taken hdrive ht.failed_eq
    exact ⟨_, .moved cells', u, .read (by simp) hreads, .moved ht.commit, hend⟩
  | @refused t ht =>
    by_cases htoken : token = config.endToken
    · obtain rfl := h.eq_endKept hdrive rfl htoken
      have hkept : Running (t.rollback.tell (engine actions.traced config) .endKept) :=
        ⟨ht.failed_eq, ht.accepted_eq, ht.capacity_eq⟩
      have huser : ((t.fail true).rollback.tell (engine actions.traced config)
          .endKept).client.user = (u, _) := user_mark rfl hend
      rw [List.append_assoc] at huser
      exact ⟨_, _, u, .kept htoken hreads, .refused hkept, huser⟩
    · obtain rfl := h.eq_discarded hdrive rfl htoken
      have huser : ((t.fail true).rollback.tell (engine actions.traced config)
          (.discarding token)).client.user = (u, _) := user_mark rfl hend
      rw [List.append_assoc] at huser
      refine ⟨_, _, u, .discarded htoken hreads, .moved (hs.of_frames
        ⟨rfl, ht.accepted_eq, ht.capacity_eq⟩ ?_), huser⟩
      rw [hsettled.frames_eq]
      exact congrArg Pile.items hbase.base_eq

theorem recovers_mirrors
    (h : Engine.Recovers (engine actions.traced config) token value .error s r)
    (hs : Awaits cells s.reopened) :
    ∃ marks verdict u,
      Textbook.Recovers actions config .error token value cells s.client.user.1 marks verdict u ∧
        Mirrors s marks verdict u r := by
  obtain ⟨found, w, hunwind, hunwinds⟩ := unwind_unwinds actions.traced config hs
  cases hunwinds with
  | nowhere hhandler hw hclient =>
    obtain rfl := h.eq_unhandled hunwind
    have hrolled : Running w.rollback := ⟨hw.failed_eq, hw.accepted_eq, hw.capacity_eq⟩
    have huser : w.client.user = (s.client.user.1, trace s ++ [.givesUp]) := by
      rw [hclient]
      rfl
    exact ⟨_, _, _, .hopeless hhandler, .refused hrolled, huser⟩
  | handler hcells hw hclient =>
    rw [hcells] at hw
    have huser : w.client.user = (s.client.user.1, trace s ++ [.resumes .statements]) := by
      rw [hclient]
      rfl
    obtain ⟨marks, verdict, u, hreads, hreaches, hend⟩ :=
      drive_mirrors actions hconfig.ebnf .error hw
    rw [huser] at hreads
    rw [trace, huser, List.append_assoc] at hend
    -- The statements shift the error token.
    obtain ⟨-, rfl, -⟩ := hreads.unique (.shift rfl)
    generalize hdrive : (engine actions.traced config).drive .error _ w = driven at hreaches hend
    cases hreaches with
    | @moved t _ ht =>
      have hreposts := h.reposts hunwind hdrive ht.failed_eq
      obtain ⟨marks', verdict', u', hoffers, hmirrors⟩ :=
        reposts_mirrors hconfig hshaped hreposts ht.commit (.commit _)
      have hcommitted : t.commit.client.user = (u, _) := hend
      have hend' := hmirrors.user_eq
      rw [hcommitted] at hoffers
      rw [trace, hcommitted, List.append_assoc] at hend'
      exact ⟨_, verdict', u', .resumed hcells hreads hoffers, hmirrors.reaches, hend'⟩

theorem settles_mirrors (h : Engine.Settles (engine actions.traced config) token value s r)
    (hs : Awaits cells s) (hsettled : s.Settled) :
    ∃ marks verdict u,
      Textbook.Takes actions config token value cells s.client.user.1 marks verdict u ∧
        Mirrors s marks verdict u r := by
  have hopened : Awaits cells s.opened :=
    hs.of_frames ⟨hs.failed_eq, hs.accepted_eq, hs.capacity_eq⟩ hsettled.frames_eq.symm
  obtain ⟨marks, verdict, u, hreads, hreaches, hend⟩ :=
    drive_mirrors actions hconfig.ebnf hshaped hopened
  have hbase := Engine.KeepsBase.drive (engine actions.traced config) token value s.opened
  generalize hdrive : (engine actions.traced config).drive token value s.opened = driven
    at hreaches hend hbase
  cases hreaches with
  | @broke t e f hfailure hcapacity =>
    obtain rfl := h.eq_halted hdrive
    exact ⟨_, .broke e, u, .read (by simp) hreads, .broke hfailure hcapacity, hend⟩
  | @accepted t results ht =>
    obtain rfl := h.eq_taken hdrive ht.failed_eq
    have hcommitted : Running t.commit := ⟨ht.failed_eq, ht.accepted_eq, ht.capacity_eq⟩
    exact ⟨_, .accepted _, u, .read (by simp) hreads, .accepted hcommitted, hend⟩
  | @moved t cells' ht =>
    obtain rfl := h.eq_taken hdrive ht.failed_eq
    exact ⟨_, .moved cells', u, .read (by simp) hreads, .moved ht.commit, hend⟩
  | @refused t ht =>
    cases hrecovery : config.recovery with
    | none =>
      obtain rfl := h.eq_failed hdrive rfl hrecovery
      have hrolled : Running t.rollback := ⟨ht.failed_eq, ht.accepted_eq, ht.capacity_eq⟩
      exact ⟨_, _, u, .refused hrecovery hreads, .refused hrolled, hend⟩
    | some recovery =>
      obtain rfl := hconfig.recovery _ hrecovery
      have hrecovers := h.recovers hdrive rfl hrecovery
      have hreopened : Awaits cells (t.fail true).reopened := by
        refine hs.of_frames ⟨rfl, ht.accepted_eq, ht.capacity_eq⟩ ?_
        rw [hsettled.frames_eq]
        exact congrArg Pile.items hbase.base_eq
      obtain ⟨marks', verdict, u', htakes, hmirrors⟩ :=
        recovers_mirrors hconfig hshaped hrecovers hreopened
      have huser : (t.fail true).client.user = (u, _) := hend
      have hend' := hmirrors.user_eq
      rw [huser] at htakes
      rw [trace, huser, List.append_assoc] at hend'
      exact ⟨_, verdict, u', .recovered hrecovery hreads htakes, hmirrors.reaches, hend'⟩

theorem post_mirrors (actions : Actions σ) (hs : Awaits cells s) (hsettled : s.Settled) :
    ∃ marks verdict u,
      Textbook.Takes actions config token value cells s.client.user.1 marks verdict u ∧
        Posted verdict ((engine actions.traced config).post token value s) ∧
        (Engine.final ((engine actions.traced config).post token value s)).client.user =
          (u, trace s ++ marks) := by
  have hcourse := Engine.post_course (engine actions.traced config) token value s
  generalize (engine actions.traced config).post token value s = r at hcourse
  cases hcourse with
  | refused hclosed =>
    rw [hs.closed_eq] at hclosed
    cases hclosed
  | answered _ hsettles =>
    obtain ⟨marks, verdict, u, htakes, hreaches, hend⟩ :=
      settles_mirrors hconfig hshaped hsettles hs hsettled
    exact ⟨marks, verdict, u, htakes, .answered hsettles.settled hreaches, hend⟩
  | @aborted f t _ hsettles =>
    obtain ⟨marks, verdict, u, htakes, hreaches, hend⟩ :=
      settles_mirrors hconfig hshaped hsettles hs hsettled
    cases hreaches with
    | @broke _ e _ hfailure hcapacity =>
      have htold := (Engine.Told.refl t.client).notify (e := engine actions.traced config)
        (.aborting f)
      have huser : (t.tell (engine actions.traced config) (.aborting f)).client.user =
        (t.client.user.1, trace t ++ []) := user_tell (.aborting f) t
      rw [List.append_nil] at huser
      exact ⟨marks, .broke e, u, htakes, .broke ((told_failure htold).trans hfailure) hcapacity,
        huser.trans hend⟩
  | crashed _ hsettles | exhausted _ hsettles =>
    obtain ⟨marks, verdict, u, htakes, hreaches, hend⟩ :=
      settles_mirrors hconfig hshaped hsettles hs hsettled
    cases hreaches

end Posts

inductive Agrees : Verdict →
    EStateM.Result (Halt Fault) (Session (σ × List Mark)) Bool → Prop
  | moved {left} {t : Session (σ × List Mark)} : t.accepted = false → t.failed = false →
      slots t.stack.frames = left.map Cell.slot → Agrees (.moved left) (.ok false t)
  | accepted {v} {t : Session (σ × List Mark)} : t.accepted = true → t.failed = false →
      t.result = some v → Agrees (.accepted v) (.ok true t)
  | refused {t : Session (σ × List Mark)} : t.accepted = false → t.failed = true →
      Agrees .refused (.ok true t)
  | broke {e f} {t : Session (σ × List Mark)} : t.client.failure = some e →
      Agrees (.broke e) (.error (.raised f) t)

theorem Reaches.agrees {verdict : Verdict} {t : Session (σ × List Mark)}
    (h : Reaches verdict (.ok () t)) : Agrees verdict (.ok t.closed t) := by
  generalize hr : EStateM.Result.ok () t = r at h
  cases h with
  | @refused t' ht =>
    cases hr
    have hclosed : (t'.fail true).closed = true := Bool.or_true _
    rw [hclosed]
    exact .refused ht.accepted_eq rfl
  | accepted ht =>
    cases hr
    exact .accepted rfl ht.failed_eq rfl
  | moved ht =>
    cases hr
    rw [ht.closed_eq]
    exact .moved ht.accepted_eq ht.failed_eq ht.shows.slots_eq
  | broke => cases hr

theorem postAll_mirrors (actions : Actions σ) (hconfig : Sane config) {tokens : Word}
    (htokens : ∀ tv ∈ tokens, Shaped tv.1 tv.2) (hs : Awaits cells s) (hsettled : s.Settled) :
    ∃ marks verdict u, Textbook.Runs actions config cells s.client.user.1 tokens marks verdict u ∧
      Agrees verdict ((engine actions.traced config).postAll tokens s) ∧
      (Engine.final ((engine actions.traced config).postAll tokens s)).client.user =
        (u, trace s ++ marks) := by
  induction tokens generalizing s cells with
  | nil =>
    refine ⟨[], .moved cells, _, .done, .moved hs.accepted_eq hs.failed_eq hs.shows.slots_eq, ?_⟩
    rw [List.append_nil]
    rfl
  | cons tv rest ih =>
    obtain ⟨token, value⟩ := tv
    obtain ⟨hshaped, hrest⟩ := List.forall_mem_cons.mp htokens
    obtain ⟨marks, verdict, u, htakes, hposted, hend⟩ :=
      post_mirrors hconfig hshaped actions hs hsettled
    generalize hpost : (engine actions.traced config).post token value s = r at hposted hend
    cases hposted with
    | @broke t e f hfailure =>
      have hrun : (engine actions.traced config).postAll ((token, value) :: rest) s =
        .error (.raised f) t := Engine.bind_of_error hpost
      rw [hrun]
      exact ⟨marks, .broke e, u, .ended nofun htakes, .broke hfailure, hend⟩
    | @answered _ t hsettled' hreaches =>
      have hagrees := hreaches.agrees
      generalize t.closed = closed at hpost hagrees
      cases hagrees with
      | @accepted v _ haccepted hopen hresult =>
        rw [Engine.postAll_of_closed hpost]
        exact ⟨marks, .accepted v, u, .ended nofun htakes, .accepted haccepted hopen hresult, hend⟩
      | refused haccepted hfailed =>
        rw [Engine.postAll_of_closed hpost]
        exact ⟨marks, .refused, u, .ended nofun htakes, .refused haccepted hfailed, hend⟩
      | moved =>
        cases hreaches with
        | moved ht =>
          have huser : t.client.user = (u, trace s ++ marks) := hend
          obtain ⟨marks', verdict, u', hruns, hagrees, hend'⟩ := ih hrest ht hsettled'
          rw [huser] at hruns
          rw [trace, huser, List.append_assoc] at hend'
          rw [Engine.postAll_of_open hpost]
          exact ⟨marks ++ marks', verdict, u', .moved htakes hruns, hagrees, hend'⟩

theorem start_awaits (actions : Actions σ) (hcapacity : config.capacity = none) (user : σ) :
    ∃ s, start actions.traced config (user, []) = .ok () s ∧
      Awaits [⟨.start, .value .nothing⟩] s ∧ s.Settled ∧ s.client.user = (user, []) := by
  obtain ⟨s, hstart, hfresh, hsettled, hunbounded, hclient⟩ :=
    start_fresh actions.traced hcapacity (user, [])
  have hshows : Shows s.stack.frames [⟨.start, .value .nothing⟩] := by
    rw [hsettled.frames_eq]
    exact fresh_shows hfresh
  refine ⟨s, hstart, ⟨⟨hfresh.failed_eq, hfresh.accepted_eq, hunbounded⟩, .start, hshows⟩,
    hsettled, ?_⟩
  rw [hclient]
  rfl

/-- Whatever is read, the engine runs as the automaton does: the run of the automaton is the only
one, and what the engine leaves agrees with what it comes to, its trace included. -/
theorem run_refines (actions : Actions σ) (hconfig : Sane config)
    (hcapacity : config.capacity = none) (user : σ) {tokens : Word}
    (htokens : ∀ tv ∈ tokens, Shaped tv.1 tv.2) :
    ∃ s marks verdict user', start actions.traced config (user, []) = .ok () s ∧
      Textbook.Runs actions config [⟨.start, .value .nothing⟩] user tokens marks verdict user' ∧
      (∀ marks' verdict' user'', Textbook.Runs actions config [⟨.start, .value .nothing⟩] user
        tokens marks' verdict' user'' → marks' = marks ∧ verdict' = verdict ∧ user'' = user') ∧
      Agrees verdict ((engine actions.traced config).postAll tokens s) ∧
      (Engine.final ((engine actions.traced config).postAll tokens s)).client.user =
        (user', marks) := by
  obtain ⟨s, hstart, hs, hsettled, huser⟩ := start_awaits actions hcapacity user
  obtain ⟨marks, verdict, user', hruns, hagrees, hend⟩ :=
    postAll_mirrors actions hconfig htokens hs hsettled
  rw [huser] at hruns
  rw [trace, huser, List.nil_append] at hend
  exact ⟨s, marks, verdict, user', hstart, hruns, fun _ _ _ h => h.unique hruns, hagrees, hend⟩

section Skipped

def misplaced : Word :=
  [(.int, .number 1), (.int, .number 2), (.semicolon, .nothing), (.ident, .name "max"),
    (.leftParen, .nothing), (.int, .number 2), (.comma, .nothing), (.int, .number 3),
    (.rightParen, .nothing), (.semicolon, .nothing), (.eof, .nothing)]

theorem misplaced_shaped : ∀ tv ∈ misplaced, Shaped tv.1 tv.2 := by
  intro tv hmem
  simp only [misplaced, List.mem_cons, List.not_mem_nil, or_false] at hmem
  rcases hmem with rfl | rfl | rfl | rfl | rfl | rfl | rfl | rfl | rfl | rfl | rfl
  all_goals first | exact .int _ | exact .ident _ | exact .mark nofun nofun

abbrev recorded : Actions (Unit × List Mark) := Evaluator.actions.traced

def misplacedRun : EStateM.Result (Halt Fault) (Session (Unit × List Mark)) Bool :=
  (engine recorded defaultConfig).postAll misplaced
    (Engine.final (start recorded defaultConfig ((), [])))

theorem run_refines_misplaced : ∃ marks,
    Textbook.Runs (Evaluator.actions : Actions Unit) defaultConfig [⟨.start, .value .nothing⟩] ()
      misplaced marks (.accepted (.program [none, some 3])) () ∧ Mark.discards .int ∈ marks := by
  obtain ⟨s, marks, verdict, user, hstart, hruns, -, hagrees, hend⟩ :=
    @run_refines Unit defaultConfig Evaluator.actions ⟨rfl, fun _ h => (Option.some.inj h).symm⟩
      rfl () misplaced misplaced_shaped
  have hrun : misplacedRun = (engine recorded defaultConfig).postAll misplaced s := by
    rw [misplacedRun, hstart]
    rfl
  have hmarks : Mark.discards .int ∈ (Engine.final misplacedRun).client.user.2 := by decide +kernel
  have hok : Engine.isOk misplacedRun = true := by decide +kernel
  have hvalue : Engine.accepted? (Engine.final misplacedRun) = some (.program [none, some 3]) := by
    decide +kernel
  rw [hrun, hend] at hmarks
  rw [hrun] at hok hvalue
  generalize (engine recorded defaultConfig).postAll misplaced s = r at hagrees hok hvalue
  refine ⟨marks, ?_, hmarks⟩
  cases hagrees with
  | moved haccepted | refused haccepted =>
    rw [Engine.final, Engine.accepted?, haccepted] at hvalue
    cases hvalue
  | broke => cases hok
  | accepted haccepted hopen hresult =>
    rw [Engine.final, Engine.accepted?, haccepted, hopen] at hvalue
    cases hresult.symm.trans hvalue
    exact hruns

end Skipped

end ShiftReduce.Calculator
