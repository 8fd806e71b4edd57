import ShiftReduce.Proofs.Calculator.Calculation
import ShiftReduce.Proofs.Calculator.Report
import ShiftReduce.Proofs.Calculator.Source
import ShiftReduce.Proofs.Calculator.Textbook
import ShiftReduce.Proofs.Calculator.Traversal

namespace ShiftReduce.Calculator

open Engine (Follows Told)

variable {σ : Type} {actions : Actions σ} {config : Config Terminal}

/-- Actions that take no note of how a source is parsed. -/
def Actions.Silent (actions : Actions σ) : Prop := ∀ event u, actions.watch event u = u

theorem Actions.Silent.told (h : actions.Silent) {c d : Client σ}
    (htold : Told (engine actions config) c d) : d.user = c.user := by
  induction htold with
  | refl => rfl
  | notify notice htold ih =>
    rw [← ih]
    cases notice <;> exact h _ _

inductive Progresses (actions : Actions σ) : List Cell → σ → Word → Verdict → σ → Prop
  | moved {cells cells' u u' u'' t v w marks verdict} :
      Textbook.Reads actions t v cells u marks (.moved cells') u' →
      Progresses actions cells' u' w verdict u'' →
      Progresses actions cells u ((t, v) :: w) verdict u''
  | ended {cells u u' t v w marks verdict} : verdict ≠ .refused →
      (∀ cells', verdict ≠ .moved cells') → Textbook.Reads actions t v cells u marks verdict u' →
      Progresses actions cells u ((t, v) :: w) verdict u'

theorem works_of_work {work : Work} {c : Content} {u u' : σ}
    (h : actions.work work u = .ok c u') : Works actions work u c u' := by
  cases work with
  | done c =>
    cases h
    exact .done _ _
  | perform call =>
    rw [Actions.work, map_eq_pure_bind] at h
    obtain ⟨v, u₁, hcall, hrest⟩ := Engine.exists_of_bind_ok h
    cases hrest
    exact .perform hcall

theorem exists_call_of_work {work : Work} {e : Error} {u u' : σ}
    (h : actions.work work u = .error e u') :
    ∃ call, work = .perform call ∧ actions.perform call u = .error e u' := by
  cases work with
  | done c => cases h
  | perform call =>
    refine ⟨call, rfl, ?_⟩
    rw [Actions.work, map_eq_pure_bind] at h
    cases hcall : actions.perform call u with
    | ok v u₁ =>
      rw [Engine.bind_of_ok hcall] at h
      cases h
    | error e' u₁ =>
      rw [Engine.bind_of_error hcall] at h
      cases h
      rfl

theorem Progresses.pursued (verdict : Verdict) (u' : σ) :
    Pursued actions (fun cells u w => Progresses actions cells u w verdict u')
      (fun e u => verdict = .broke e ∧ u' = u) where
  shift haction h := .moved (.shift haction) h
  reduce {cell cells u t v w p work next below} haction hreduces h := by
    rw [Act.Leads] at h
    cases hwork : actions.work work u with
    | ok c u₁ =>
      rw [hwork] at h
      have hworks := works_of_work hwork
      cases h with
      | moved hreads h => exact .moved (.reduce haction hreduces hworks hreads) h
      | ended hne hends hreads => exact .ended hne hends (.reduce haction hreduces hworks hreads)
    | error e u₁ =>
      rw [hwork] at h
      obtain ⟨rfl, rfl⟩ := h
      obtain ⟨call, rfl, hcall⟩ := exists_call_of_work hwork
      exact .ended nofun nofun (.breaks haction hreduces hcall)

section Drives

variable {token : Terminal} {value : Value} {s : Session σ} {cells : List Cell}

theorem Drives.serves {r : EStateM.Result (Halt Fault) (Session σ) Unit}
    (h : Drives actions config token value s cells r) (hsilent : actions.Silent)
    (hshaped : Shaped token value) (hcells : Proper cells) (hs : Running s) :
    ∃ marks verdict u, Textbook.Reads actions token value cells s.client.user marks verdict u ∧
      Reaches verdict r ∧ (Engine.final r).client.user = u := by
  induction h with
  | refused haction ht =>
    exact ⟨_, _, _, .refuse haction, .refused (hs.follows ht), hsilent.told ht.told⟩
  | @accepted s t cell cells haction ht =>
    obtain ⟨results, hresults⟩ := hcells.program haction
    have hreads : Textbook.Reads actions token value (cell :: cells) s.client.user _ _ _ :=
      .accept haction
    rw [hresults] at hreads ⊢
    exact ⟨_, _, _, hreads, .accepted (hs.follows ht), hsilent.told ht.told⟩
  | shifted haction ht hshows =>
    exact ⟨_, _, _, .shift haction, .moved ⟨hs.follows ht, hcells.shift haction hshaped, hshows⟩,
      hsilent.told ht.told⟩
  | crowded hbounded | overgrown _ _ _ hbounded => exact absurd hs.capacity_eq hbounded
  | @reduced s w cell cells p work next below c u r haction hreduces hworks hw _ _ ih =>
    obtain ⟨hclean, hproper⟩ := hcells.reduces_clean haction hreduces
    have huser : w.client.user = u := hsilent.told hw.told
    obtain ⟨marks, verdict, u', hreads, hreaches, hend⟩ :=
      ih (hproper _ hworks.yields) (((hs.follows .reducing).serve _).follows hw)
    rw [hsilent.told Follows.reducing.told] at hworks
    rw [huser] at hreads
    exact ⟨_, verdict, u', .reduce haction hreduces hworks hreads, hreaches, hend⟩
  | broke haction hreduces hcall =>
    rw [hsilent.told Follows.reducing.told] at hcall
    exact ⟨_, _, _, .breaks haction hreduces hcall, .broke rfl hs.capacity_eq, rfl⟩

inductive Serves (ds : List Diagnostic) (u : σ) :
    Verdict → EStateM.Result (Halt Fault) (Session σ) Bool → Prop
  | accepted {t : Session σ} {results} : Running t → t.client.user = u →
      t.client.diagnostics = ds → Serves ds u (.accepted (.program results))
        (.ok true { t with accepted := true, result := some (.program results) })
  | moved {t : Session σ} {cells} : Awaits cells t → t.Settled → t.client.user = u →
      t.client.diagnostics = ds → Serves ds u (.moved cells) (.ok false t)
  | broke {t : Session σ} {e f} : t.client.failure = some e → t.client.user = u →
      Serves ds u (.broke e) (.error (.raised f) t)

theorem post_serves (hsilent : actions.Silent) (hebnf : config.ebnf = true)
    (hshaped : Shaped token value) (hs : Awaits cells s) (hsettled : s.Settled)
    {marks : List Mark} {verdict : Verdict} {u : σ} (hne : verdict ≠ .refused)
    (hreads : Textbook.Reads actions token value cells s.client.user marks verdict u) :
    Serves s.client.diagnostics u verdict ((engine actions config).post token value s) := by
  have hopened : Awaits cells s.opened :=
    hs.of_frames ⟨hs.failed_eq, hs.accepted_eq, hs.capacity_eq⟩ hsettled.frames_eq.symm
  have hdrives : Drives actions config token value s.opened cells _ :=
    drive_course hebnf hopened.failed_eq hopened.proper hopened.shows
  obtain ⟨marks', verdict', u', hreads', hreaches, huser⟩ :=
    hdrives.serves hsilent hshaped hopened.proper hopened.toRunning
  obtain ⟨-, rfl, rfl⟩ := hreads.unique hreads'
  generalize hdrive : (engine actions config).drive token value s.opened = driven
    at hreaches huser
  have hdiagnostics : ∀ t, driven = .ok () t → t.failed = false →
      t.client.diagnostics = s.client.diagnostics := by
    rintro t rfl hopen
    have hreports := drive_reports hopened.capacity_eq hdrive
    exact congrArg Account.diagnostics (hreports.account_eq hopen)
  cases hreaches with
  | refused => exact absurd rfl hne
  | @accepted t results ht =>
    have hcommitted : Running t.commit := ⟨ht.failed_eq, ht.accepted_eq, ht.capacity_eq⟩
    have hsame := hdiagnostics _ rfl ht.failed_eq
    rw [Engine.post_of_taken hs.closed_eq hdrive ht.failed_eq]
    exact .accepted hcommitted huser hsame
  | moved ht =>
    have hsame := hdiagnostics _ rfl ht.failed_eq
    rw [Engine.post_of_taken hs.closed_eq hdrive ht.failed_eq, ht.closed_eq]
    exact .moved ht.commit (.commit _) huser hsame
  | @broke t e f hfailure hcapacity =>
    have htold := (Told.refl t.client).notify (e := engine actions config) (.aborting f)
    rw [Engine.post_of_raised hs.closed_eq hdrive]
    exact .broke ((told_failure htold).trans hfailure) ((hsilent.told htold).trans huser)

end Drives

section Calculations

variable {s : Session σ} {cells : List Cell}

inductive Brings (ds : List Diagnostic) (u : σ) :
    Verdict → EStateM.Result (Halt Error) (Session σ) Outcome → Prop
  | results {results} {t : Session σ} : t.client.user = u →
      Brings ds u (.accepted (.program results)) (.ok ⟨results, ds⟩ t)
  | failure {e} {t : Session σ} : t.client.user = u → Brings ds u (.broke e) (.error (.raised e) t)

theorem postToken_serves (hsilent : actions.Silent) (hebnf : config.ebnf = true) {l : Token}
    (hshaped : Shaped l.terminal l.value) (hs : Awaits cells s) (hsettled : s.Settled)
    {marks : List Mark} {verdict : Verdict} {u : σ} (hne : verdict ≠ .refused)
    (hreads : Textbook.Reads actions l.terminal l.value cells s.client.user marks verdict u) :
    Serves s.client.diagnostics u verdict
      ((engine actions config).post l.terminal l.value (located actions l s)) := by
  have hlocated : Awaits cells (located actions l s) :=
    hs.of_frames ⟨hs.failed_eq, hs.accepted_eq, hs.capacity_eq⟩ rfl
  have huser : (located actions l s).client.user = s.client.user := hsilent _ _
  rw [← huser] at hreads
  exact post_serves hsilent hebnf hshaped hlocated (hsettled.of_stack rfl) hne hreads

theorem feed_brings (hsilent : actions.Silent) (hebnf : config.ebnf = true) {w : Word} {u u' : σ}
    {verdict : Verdict} (h : Progresses actions cells u w verdict u') {lexemes : List Lexeme}
    (hlexemes : lexemes.map item = w.map .ok) (hlegible : ∀ l ∈ lexemes, Legible l)
    (hs : Awaits cells s) (hsettled : s.Settled) (huser : s.client.user = u) :
    Brings s.client.diagnostics u' verdict
      ((feed actions config lexemes >>= fun _ => conclude) s) := by
  induction h generalizing lexemes s with
  | @moved cells cells' u u₁ u₂ t v w marks verdict hreads _ ih =>
    obtain ⟨l, rest, rfl, rfl, rfl, hrest⟩ := exists_token hlexemes
    obtain ⟨hl, hlegible⟩ := List.forall_mem_cons.mp hlegible
    subst huser
    have hserves : Serves s.client.diagnostics u₁ (.moved cells') _ :=
      postToken_serves hsilent hebnf hl hs hsettled nofun hreads
    generalize hpost : (engine actions config).post l.terminal l.value _ = r at hserves
    cases hserves with
    | moved ht hsettled' huser hdiagnostics =>
      rw [feed, bind_assoc, Engine.bind_of_ok (postToken_of_post hpost), ← hdiagnostics]
      exact ih hrest hlegible ht hsettled' huser
  | ended hne hends hreads =>
    obtain ⟨l, rest, rfl, rfl, rfl, -⟩ := exists_token hlexemes
    obtain ⟨hl, -⟩ := List.forall_mem_cons.mp hlegible
    subst huser
    have hserves := postToken_serves hsilent hebnf hl hs hsettled hne hreads
    generalize hpost : (engine actions config).post l.terminal l.value _ = r at hserves
    cases hserves with
    | moved => exact absurd rfl (hends _)
    | @accepted t results ht huser hdiagnostics =>
      obtain ⟨t', -, hsame, hrun⟩ :=
        conclude_run { t with accepted := true, result := some (.program results) }
      rw [ht.accepted?_eq] at hrun
      rw [feed, bind_assoc, Engine.bind_of_ok (postToken_of_post hpost), ← hdiagnostics]
      show Brings _ _ _ (conclude _)
      rw [hrun]
      exact .results (hsame.trans huser)
    | broke hfailure huser =>
      rw [feed, bind_assoc, Engine.bind_of_error (postToken_of_raised hpost hfailure)]
      exact .failure huser

inductive Performed :
    EStateM.Result Error σ (List (Option Int)) → EStateM.Result (Halt Error) (Session σ) Outcome →
    Prop
  | ok {results} {t : Session σ} : Performed (.ok results t.client.user) (.ok ⟨results, []⟩ t)
  | error {e} {t : Session σ} : Performed (.error e t.client.user) (.error (.raised e) t)

theorem parse_performs (hsilent : actions.Silent) (hebnf : config.ebnf = true)
    (hcapacity : s.stack.capacity = none) {source : String} {tree : Tree .program}
    (hsource : Spells source tree.yield) :
    Performed (tree.perform actions s.client.user) (parse actions config source s) := by
  obtain ⟨t, hparse, hawaits, hsettled, hclient⟩ := parse_awaits actions config hcapacity source
  have huser : t.client.user = s.client.user := by
    rw [hclient]
    rfl
  have hdiagnostics : t.client.diagnostics = [] := by
    rw [hclient]
    rfl
  have hitems : (lexemes source).map item =
      (tree.yield ++ [(Terminal.eof, Value.nothing)]).map .ok := by
    rw [List.map_append]
    exact hsource
  have hbrings : ∀ verdict u',
      (tree.perform actions).Leads
        (fun results u => Progresses actions [⟨.accepting, .value (.program results)⟩,
          ⟨.start, .value .nothing⟩] u [(.eof, .nothing)] verdict u')
        (fun e u => verdict = .broke e ∧ u' = u) s.client.user →
      Brings [] u' verdict (parse actions config source s) := by
    intro verdict u' hleads
    have hprogresses : Progresses actions [⟨.start, .value .nothing⟩] s.client.user
        (tree.yield ++ [(.eof, .nothing)]) verdict u' :=
      (Progresses.pursued verdict u').tree tree rfl (List.mem_singleton_self _) hleads
    rw [hparse, ← hdiagnostics]
    exact feed_brings hsilent hebnf hprogresses hitems (Lexer.scan_legible 0 source.toList)
      hawaits hsettled huser
  cases hperform : tree.perform actions s.client.user with
  | ok results u =>
    have hbrought := hbrings (.accepted (.program results)) u
      (.of_ok hperform (.ended nofun nofun (.accept rfl)))
    generalize parse actions config source s = r at hbrought
    cases hbrought with
    | results huser =>
      rw [← huser]
      exact .ok
  | error e u =>
    have hbrought := hbrings (.broke e) u (.of_error hperform ⟨rfl, rfl⟩)
    generalize parse actions config source s = r at hbrought
    cases hbrought with
    | failure huser =>
      rw [← huser]
      exact .error

end Calculations

/-- With any actions, in any session on an unbounded stack, with recovery or without, a source of a
program is carried out as its tree is performed. The calls go through the operations of the tree in
postorder, each with the values of earlier ones, up to the first that fails, whose error is the
result. -/
theorem parse_traverses (actions : Actions σ) (hebnf : config.ebnf = true)
    {s : Session (σ × List Made)} (hcapacity : s.stack.capacity = none) {source : String}
    {tree : Tree .program} (hsource : Spells source tree.yield) :
    Performed (tree.perform actions.logged s.client.user) (parse actions.logged config source s) ∧
      Traverses tree.operations s.client.user.2 (tree.perform actions.logged s.client.user) :=
  ⟨parse_performs (fun _ _ => rfl) hebnf hcapacity hsource,
    tree.perform_traverses actions s.client.user⟩

section Divided

def Tree.number (n : Int) : Tree .term := .onlyFactor (.literal n)

def divided : Tree .program :=
  .program (.nextStatement (.nextStatement (.nextStatement .noStatement
    (.evaluated (.sum (.onlyTerm (.number 1)) (.number 2))))
    (.evaluated (.onlyTerm (.onlyFactor (.call "max" (.nextArgument
      (.firstArgument (.onlyTerm (.number 3)))
      (.onlyTerm (.quotient (.number 4) (.literal 0)))))))))
    (.evaluated (.onlyTerm (.product (.number 5) (.literal 6)))))

def logging : Session (Unit × List Made) :=
  Engine.final (start Evaluator.actions.logged defaultConfig ((), []))

theorem parse_traverses_divided :
    defaultConfig.ebnf = true ∧ logging.stack.capacity = none ∧
      Spells "1 + 2; max(3, 4 / 0); 5 * 6;" divided.yield ∧
      divided.operations = [.sum, .evaluated, .quotient, .call, .evaluated, .product, .evaluated,
        .program] ∧
      ∃ made t, parse Evaluator.actions.logged defaultConfig "1 + 2; max(3, 4 / 0); 5 * 6;" logging =
          .error (.raised .divisionByZero) t ∧ t.client.user = ((), made) ∧
        made.map Made.production = [.sum, .evaluated, .quotient] ∧
        Traverses divided.operations [] (divided.perform Evaluator.actions.logged ((), [])) := by
  have hspells : Spells "1 + 2; max(3, 4 / 0); 5 * 6;" divided.yield := by
    unfold Spells
    decide +kernel
  have hcapacity : logging.stack.capacity = none := by decide +kernel
  have huser : logging.client.user = ((), []) := rfl
  have hebnf : defaultConfig.ebnf = true := rfl
  obtain ⟨hperformed, htraverses⟩ :=
    parse_traverses Evaluator.actions hebnf hcapacity hspells
  refine ⟨hebnf, hcapacity, hspells, rfl, ?_⟩
  rw [huser] at hperformed htraverses
  obtain ⟨made, hperform, hmade⟩ : ∃ made, divided.perform Evaluator.actions.logged ((), []) =
      .error .divisionByZero ((), made) ∧
      made.map Made.production = [.sum, .evaluated, .quotient] := ⟨_, rfl, rfl⟩
  rw [hperform] at hperformed htraverses
  generalize parse Evaluator.actions.logged defaultConfig _ logging = r at hperformed
  generalize huser : ((), made) = user at hperformed
  cases hperformed
  exact ⟨made, _, rfl, huser.symm, hmade, hperform ▸ htraverses⟩

end Divided

end ShiftReduce.Calculator
