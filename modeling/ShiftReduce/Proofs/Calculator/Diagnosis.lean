import ShiftReduce.Proofs.Calculator.Calculation
import ShiftReduce.Proofs.Calculator.Complaint

namespace ShiftReduce.Calculator

variable {σ : Type} {actions : Actions σ} {config : Config Terminal} {m : Arithmetic}

structure Noted (messages : List String) (s t : Session σ) : Prop where
  diagnostics_eq : t.client.diagnostics =
    s.client.diagnostics ++ messages.map (Diagnostic.mk s.client.span)
  span_eq : t.client.span = s.client.span

namespace Noted

variable {s t u : Session σ} {messages messages' : List String}

theorem nothing (hdiagnostics : t.client.diagnostics = s.client.diagnostics)
    (hspan : t.client.span = s.client.span) : Noted [] s t :=
  ⟨hdiagnostics.trans (List.append_nil _).symm, hspan⟩

theorem of_account (h : account t = account s) : Noted [] s t := by
  obtain ⟨hdiagnostics, hspan, -, -⟩ := Account.mk.inj h
  exact .nothing hdiagnostics hspan

theorem trans (h : Noted messages s t) (h' : Noted messages' t u) :
    Noted (messages ++ messages') s u where
  diagnostics_eq := by
    rw [h'.diagnostics_eq, h.diagnostics_eq, h.span_eq, List.map_append, List.append_assoc]
  span_eq := h'.span_eq.trans h.span_eq

end Noted

section Posts

variable {token : Terminal} {value : Value} {s t : Session σ} {cells : List Cell}

theorem Drives.refuses {r : EStateM.Result (Halt Fault) (Session σ) Unit}
    (h : Drives actions config token value s cells r) (hanswers : actions.Answers m)
    (hcells : Proper cells) (hs : Running s) (hr : r = .ok () t) (hfailed : t.failed = true) :
    ∃ cell below, Refuses m token cells cell.state ∧ Shows t.stack.frames (cell :: below) := by
  induction h with
  | refused haction _ hshows =>
    cases hr
    exact ⟨_, _, .error haction, hshows⟩
  | accepted _ ht | shifted _ ht =>
    cases hr
    cases (hs.follows ht).failed_eq.symm.trans hfailed
  | crowded hbounded | overgrown _ _ _ hbounded => exact absurd hs.capacity_eq hbounded
  | reduced haction hreduces hworks hw _ _ ih =>
    obtain ⟨hclean, hproper⟩ := hcells.reduces_clean haction hreduces
    obtain ⟨cell, below, hrefuses, hshows⟩ :=
      ih (hproper _ hworks.yields) (((hs.follows .reducing).serve _).follows hw) hr
    have hcontent := hanswers.content_ok hclean hworks
    exact ⟨cell, below, .reduce haction hreduces hcontent hrefuses, hshows⟩
  | broke => cases hr

variable (hanswers : actions.Answers m) (hebnf : config.ebnf = true)

include hanswers hebnf

theorem drive_noted (hs : Awaits cells s)
    (hdrive : (engine actions config).drive token value s = .ok () t) :
    (t.failed = false → Noted [] s t) ∧
      (t.failed = true → ∃ q, Refuses m token cells q ∧ Noted [complaint q token] s t) := by
  have hdrives : Drives actions config token value s cells _ :=
    drive_course hebnf hs.failed_eq hs.proper hs.shows
  rcases drive_account hs.capacity_eq hdrive with haccount | @⟨head, fs, hframes, haccount⟩
  · have hopen : t.failed = false := (congrArg Account.failed haccount).trans hs.failed_eq
    refine ⟨fun _ => .of_account haccount, fun hfailed => ?_⟩
    cases hopen.symm.trans hfailed
  · have hfailed : t.failed = true := congrArg Account.failed haccount
    refine ⟨fun hopen => ?_, fun _ => ?_⟩
    · cases hopen.symm.trans hfailed
    · obtain ⟨cell, below, hrefuses, hshows⟩ :=
        hdrives.refuses hanswers hs.proper hs.toRunning hdrive hfailed
      obtain ⟨head', fs', hframes', hstate, -⟩ := hshows.cons
      cases hframes.symm.trans hframes'
      rw [hstate] at haccount
      exact ⟨cell.state, hrefuses, congrArg Account.diagnostics haccount,
        congrArg Account.span haccount⟩

theorem drive_skipping_noted (hshaped : Shaped token value) (hs : Awaits (skipping cells) s)
    (hdrive : (engine actions config).drive token value s = .ok () t) :
    Noted (if token = .semicolon then [] else [complaint .skipping token]) s t := by
  obtain ⟨verdict, hdecides, hreaches⟩ := drive_reaches hanswers hebnf hshaped hs
  obtain ⟨hopen, hfailed⟩ := drive_noted hanswers hebnf hs hdrive
  have haction : action .skipping token = if token = .semicolon then .shift .skipped else .error :=
    rfl
  rw [hdrive] at hreaches
  split at haction
  next htoken =>
    obtain rfl := hdecides.of_shift haction
    cases hreaches with
    | moved ht =>
      rw [if_pos htoken]
      exact hopen ht.failed_eq
  next htoken =>
    obtain rfl := hdecides.of_error haction
    cases hreaches with
    | refused ht =>
      obtain ⟨q, hrefuses, hnoted⟩ := hfailed rfl
      obtain rfl := hrefuses.of_error haction
      rw [if_neg htoken]
      exact hnoted

theorem reposts_noted (h : Engine.Reposts (engine actions config) token value s (.ok () t))
    (hshaped : Shaped token value) (hs : Awaits (skipping cells) s) :
    Noted (if token = .semicolon then [] else [complaint .skipping token]) s t := by
  have htold : Awaits (skipping cells) (s.tell (engine actions config) (.reposting token)) :=
    hs.of_frames ⟨hs.failed_eq, hs.accepted_eq, hs.capacity_eq⟩ rfl
  cases h with
  | taken hdrive | endKept hdrive | discarded hdrive =>
    have hnoted := drive_skipping_noted hanswers hebnf hshaped htold hdrive
    exact ⟨hnoted.diagnostics_eq, hnoted.span_eq⟩

omit hanswers hebnf in
theorem Unwinds.noted {found : Bool} (h : Unwinds actions cells s.reopened found t) :
    Noted [] s t := by
  cases h with
  | handler _ _ hclient | nowhere _ _ hclient =>
    apply Noted.nothing <;> rw [hclient] <;> rfl

theorem recovers_noted (h : Engine.Recovers (engine actions config) token value .error s (.ok () t))
    (hshaped : Shaped token value) (hs : Awaits cells s.reopened) :
    Noted (repeated token cells) s t := by
  obtain ⟨found, u, hunwind, hunwinds⟩ := unwind_unwinds actions config hs
  have hunwound : Noted [] s u := hunwinds.noted
  cases hunwinds with
  | nowhere hhandler =>
    obtain ⟨⟩ := h.eq_unhandled hunwind
    rw [repeated, if_pos hhandler]
    exact ⟨hunwound.diagnostics_eq, hunwound.span_eq⟩
  | handler hcells hu =>
    obtain ⟨verdict, hdecides, hreaches⟩ :=
      drive_reaches hanswers hebnf .error hu
    rw [hcells] at hdecides
    obtain rfl := hdecides.of_shift rfl
    rw [← hcells] at hreaches
    generalize hdrive : (engine actions config).drive .error _ u = driven at hreaches
    cases hreaches with
    | @moved w _ hw =>
      have hreposts := h.reposts hunwind hdrive hw.failed_eq
      have hdriven := (drive_noted hanswers hebnf hu hdrive).1 hw.failed_eq
      have hresumed : Noted [] s w.commit :=
        hunwound.trans ⟨hdriven.diagnostics_eq, hdriven.span_eq⟩
      rw [repeated, if_neg (hcells ▸ List.cons_ne_nil _ _)]
      exact hresumed.trans (reposts_noted hanswers hebnf hreposts hshaped hw.commit)

end Posts

section Calculations

variable {s t : Session σ} {cells : List Cell}

theorem settles_noted {token : Terminal} {value : Value}
    (h : Engine.Settles (engine actions config) token value s (.ok () t))
    (hanswers : actions.Answers m) (hconfig : Recovering config) (hshaped : Shaped token value)
    (hs : Awaits cells s) (hsettled : s.Settled) :
    ∃ messages, Complains m token value cells messages ∧ Noted messages s t := by
  have hopened : Awaits cells s.opened :=
    hs.of_frames ⟨hs.failed_eq, hs.accepted_eq, hs.capacity_eq⟩ hsettled.frames_eq.symm
  have hbase := Engine.KeepsBase.drive (engine actions config) token value s.opened
  obtain ⟨verdict, hdecides, hreaches⟩ := drive_reaches hanswers hconfig.ebnf_eq hshaped hopened
  cases h with
  | @taken t hdrive hopen =>
    have hnoted := (drive_noted hanswers hconfig.ebnf_eq hopened hdrive).1 hopen
    have hne : verdict ≠ .refused := by
      rintro rfl
      rw [hdrive] at hreaches
      cases hreaches
      cases hopen
    exact ⟨[], .nothing hne hdecides, hnoted.diagnostics_eq, hnoted.span_eq⟩
  | failed _ _ hrecovery => cases hrecovery.symm.trans hconfig.recovery_eq
  | @recovered u recovery _ hdrive hfailed hrecovery hrecovers =>
    obtain ⟨q, hrefuses, hnoted⟩ :=
      (drive_noted hanswers hconfig.ebnf_eq hopened hdrive).2 hfailed
    obtain rfl := hdecides.unique (hrefuses.decides value)
    cases hrecovery.symm.trans hconfig.recovery_eq
    rw [hdrive] at hbase hreaches
    cases hreaches with
    | @refused u hu =>
      have hreopened : Awaits cells (u.fail true).reopened := by
        refine hs.of_frames ⟨rfl, hu.accepted_eq, hu.capacity_eq⟩ ?_
        rw [hsettled.frames_eq]
        exact congrArg Pile.items hbase.base_eq
      have hrefused : Noted [complaint q token] s (u.fail true) :=
        ⟨hnoted.diagnostics_eq, hnoted.span_eq⟩
      have hrecovered := recovers_noted hanswers hconfig.ebnf_eq hrecovers hshaped hreopened
      exact ⟨_, .refused hrefuses, hrefused.trans hrecovered⟩

theorem postToken_noted (hanswers : actions.Answers m) (hconfig : Recovering config) {l : Token}
    (hl : Shaped l.terminal l.value) (hs : Awaits cells s) (hsettled : s.Settled) {closed : Bool}
    (h : postToken actions config l s = .ok closed t) :
    ∃ messages, Complains m l.terminal l.value cells messages ∧
      t.client.diagnostics = s.client.diagnostics ++ messages.map (Diagnostic.mk l.span) := by
  have hread : Awaits cells (located actions l s) :=
    hs.of_frames ⟨hs.failed_eq, hs.accepted_eq, hs.capacity_eq⟩ rfl
  have hpost : (engine actions config).post l.terminal l.value (located actions l s) =
      .ok closed t := ok_of_liftRun h
  have hcourse := Engine.post_course (engine actions config) l.terminal l.value (located actions l s)
  rw [hpost] at hcourse
  cases hcourse with
  | answered _ hsettles =>
    obtain ⟨messages, hcomplains, hnoted⟩ :=
      settles_noted hsettles hanswers hconfig hl hread (hsettled.of_stack rfl)
    exact ⟨messages, hcomplains, hnoted.diagnostics_eq⟩

inductive Diagnoses (m : Arithmetic) : List Cell → List Lexeme → List Diagnostic → Prop
  | accepted {cells result rest} {l : Token} :
      Settles m l.terminal l.value cells (.accepted result) → Diagnoses m cells (.ok l :: rest) []
  | moved {cells cells' rest messages ds} {l : Token} :
      Settles m l.terminal l.value cells (.moved cells') →
      Complains m l.terminal l.value cells messages → Diagnoses m cells' rest ds →
      Diagnoses m cells (.ok l :: rest) (messages.map (Diagnostic.mk l.span) ++ ds)

theorem conclude_ne_ok (haccepted : s.accepted = false) (hcapacity : s.stack.capacity = none)
    (o : Outcome) (t : Session σ) : conclude s ≠ .ok o t := by
  intro hconclude
  have hgives := (conclude_rejected haccepted hcapacity).summary_eq
  rw [hconclude] at hgives
  cases hgives

theorem Running.conclude_diagnostics (hs : Running s) {results : List (Option Int)} {o : Outcome}
    (h : conclude { s with accepted := true, result := some (.program results) } = .ok o t) :
    o.diagnostics = s.client.diagnostics := by
  obtain ⟨u, -, -, hrun⟩ :=
    conclude_run { s with accepted := true, result := some (.program results) }
  rw [hs.accepted?_eq] at hrun
  cases h.symm.trans hrun
  rfl

theorem feed_diagnoses (hanswers : actions.Answers m) (hconfig : Recovering config)
    {lexemes : List Lexeme} (hlexemes : ∀ l ∈ lexemes, Legible l) (hs : Awaits cells s)
    (hsettled : s.Settled) {o : Outcome}
    (h : (feed actions config lexemes >>= fun _ => conclude) s = .ok o t) :
    ∃ ds, Diagnoses m cells lexemes ds ∧ o.diagnostics = s.client.diagnostics ++ ds := by
  induction lexemes generalizing s cells with
  | nil => exact absurd h (conclude_ne_ok hs.accepted_eq hs.capacity_eq o t)
  | cons l rest ih =>
    obtain ⟨hl, hrest⟩ := List.forall_mem_cons.mp hlexemes
    cases l with
    | error e => cases h
    | ok l =>
      obtain ⟨verdict, hsettles, hposted⟩ := postToken_reaches hanswers hconfig hl hs hsettled
      rw [feed, bind_assoc] at h
      generalize hpost : postToken actions config l s = posted at hposted
      cases hposted with
      | broke =>
        rw [Engine.bind_of_error hpost] at h
        cases h
      | answered hsettled' hreaches =>
        obtain ⟨messages, hcomplains, hdiagnostics⟩ :=
          postToken_noted hanswers hconfig hl hs hsettled hpost
        rw [Engine.bind_of_ok hpost] at h
        cases hreaches with
        | @refused u hu =>
          have hclosed : (u.fail true).closed = true := Bool.or_true u.accepted
          have hrejected : conclude (u.fail true) ≠ .ok o t :=
            conclude_ne_ok (s := u.fail true) hu.accepted_eq hu.capacity_eq o t
          rw [hclosed] at h
          exact absurd h hrejected
        | accepted hu =>
          obtain rfl := hcomplains.eq_nil hsettles.decides_of_accepted (by simp)
          exact ⟨[], .accepted hsettles, (hu.conclude_diagnostics h).trans hdiagnostics⟩
        | moved hu =>
          rw [hu.closed_eq] at h
          obtain ⟨ds, hdiagnoses, hsame⟩ := ih hrest hu hsettled' h
          rw [hdiagnostics, List.append_assoc] at hsame
          exact ⟨_, .moved hsettles hcomplains hdiagnoses, hsame⟩

theorem calculate_diagnoses {user : σ} {history : List String} {source : String} {o : Outcome}
    (h : calculate user history source = .ok o t) :
    Diagnoses Evaluator.arithmetic [⟨.start, .value .nothing⟩] (lexemes source) o.diagnostics := by
  have hcapacity :=
    served_capacity Evaluator.actions_answers defaultConfig_recovering rfl user history
  obtain ⟨u, hparse, hu, hsettled, hclient⟩ :=
    parse_awaits Evaluator.actions defaultConfig hcapacity source
  rw [calculate, hparse] at h
  obtain ⟨ds, hdiagnoses, hsame⟩ := feed_diagnoses Evaluator.actions_answers
    defaultConfig_recovering (Lexer.scan_legible 0 source.toList) hu hsettled h
  rw [hclient] at hsame
  rw [hsame]
  exact hdiagnoses

end Calculations

end ShiftReduce.Calculator
