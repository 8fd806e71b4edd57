import ShiftReduce.Proofs.Calculator.Calculation
import ShiftReduce.Proofs.Calculator.Report
import ShiftReduce.Proofs.Calculator.Viable

namespace ShiftReduce.Calculator

variable {σ : Type} {actions : Actions σ} {config : Config Terminal} {a : Algebra}
  {token : Terminal} {value : Value} {w u : Word} {s : Session σ} {cells : List Cell}

def Actions.Unfailing (actions : Actions σ) : Prop :=
  ∀ call u, ∃ v u', actions.perform call u = .ok v u'

inductive Detects (a : Algebra) (w : Word) (s : Session σ) : Prop
  | refused : s.failed = true → s.accepted = false → ¬ Viable w → Detects a w s
  | accepted : s.failed = false → Sentence w → Detects a w s
  | shifted (cells : List Cell) : s.failed = false → s.accepted = false → Covering a w [] cells →
      Shows s.stack.frames cells → Detects a w s

theorem Drives.detects {r : EStateM.Result (Halt Fault) (Session σ) Unit}
    (h : Drives actions config token value s cells r) (hunfailing : actions.Unfailing)
    (hshaped : Shaped token value) (htoken : token ≠ .error)
    (hcells : Covering a w [(token, value)] cells) (hcapacity : s.stack.capacity = none)
    (hfailed : s.failed = false) (haccepted : s.accepted = false) :
    ∃ t, r = .ok () t ∧ Engine.SameBase s t ∧ Detects a (w ++ [(token, value)]) t := by
  induction h with
  | refused haction ht =>
    exact ⟨_, rfl, ht.base.trans (.of_stack rfl),
      .refused rfl (ht.accepted_eq.trans haccepted) (hcells.refused haction)⟩
  | accepted haction ht hs =>
    exact ⟨_, rfl, ht.base.trans (.of_stack rfl),
      .accepted (ht.failed_eq.trans hfailed) (hcells.accepted hshaped haction)⟩
  | shifted haction ht hs =>
    exact ⟨_, rfl, ht.base, .shifted _ (ht.failed_eq.trans hfailed)
      (ht.accepted_eq.trans haccepted) (hcells.shift hshaped htoken haction) hs⟩
  | crowded hbounded | overgrown _ _ _ hbounded => exact absurd hcapacity hbounded
  | reduced haction hreduces hworks hw hs _ ih =>
    have hbase := (serve_base Engine.Follows.reducing.base _).trans hw.base
    obtain ⟨t, hr, htbase, hdetects⟩ := ih (hcells.reduces haction hreduces hworks.yields)
      (hbase.capacity_eq.trans hcapacity) (hw.failed_eq.trans hfailed)
      (hw.accepted_eq.trans haccepted)
    exact ⟨t, hr, hbase.trans htbase, hdetects⟩
  | @broke _ _ _ _ call _ _ _ _ _ _ hcall =>
    obtain ⟨v, u, hanswer⟩ := hunfailing call _
    rw [hanswer] at hcall
    cases hcall

structure Expects (a : Algebra) (w : Word) (s : Session σ) : Prop extends Running s where
  covering : ∃ cells, Covering a w [] cells ∧ Shows s.stack.base.items cells

theorem Expects.of_client (h : Expects a w s) (client : Client σ) :
    Expects a w { s with client } :=
  ⟨⟨h.failed_eq, h.accepted_eq, h.capacity_eq⟩, h.covering⟩

section Posts

variable (hunfailing : actions.Unfailing) (hebnf : config.ebnf = true)

include hunfailing hebnf

theorem drive_detects (hs : Expects a w s) (hshaped : Shaped token value)
    (htoken : token ≠ .error) : ∃ t, (engine actions config).drive token value s.opened = .ok () t ∧
      t.stack.capacity = none ∧ Detects a (w ++ [(token, value)]) t := by
  obtain ⟨cells, hcells, hshows⟩ := hs.covering
  have hdrives : Drives actions config token value s.opened cells _ :=
    drive_course hebnf hs.failed_eq hcells.proper hshows
  obtain ⟨t, hdrive, hbase, hdetects⟩ := hdrives.detects hunfailing hshaped htoken
    (hcells.ahead _) hs.capacity_eq hs.failed_eq hs.accepted_eq
  exact ⟨t, hdrive, hbase.capacity_eq.trans hs.capacity_eq, hdetects⟩

variable (hrecovery : config.recovery = none)

include hrecovery

theorem post_expects (hs : Expects a w s) (hlexed : Lexed (token, value))
    (hviable : Viable (w ++ [(token, value)])) :
    ∃ t, (engine actions config).post token value s = .ok false t ∧
      Expects a (w ++ [(token, value)]) t ∧ account t = account s := by
  obtain ⟨t, hdrive, hcapacity, hdetects⟩ := drive_detects hunfailing hebnf hs hlexed.1 hlexed.2.2
  cases hdetects with
  | refused _ _ hnot => exact absurd hviable hnot
  | accepted _ hsentence =>
    obtain ⟨tree, htree⟩ := hsentence
    cases (List.append_inj' htree rfl).2
    exact absurd rfl hlexed.2.1
  | shifted cells hfailed haccepted hcells hshows =>
    have hpost := Engine.post_of_taken hs.closed_eq hdrive hfailed
    have hexpects : Expects a (w ++ [(token, value)]) t.commit :=
      ⟨⟨hfailed, haccepted, hcapacity⟩, cells, hcells, hshows⟩
    have hopen : t.closed = false := hexpects.closed_eq
    rw [hopen] at hpost
    have hreports := post_reports hrecovery hs.capacity_eq hpost
    exact ⟨t.commit, hpost, hexpects, hreports.account_eq hfailed⟩

theorem post_rejects (hs : Expects a w s) (hshaped : Shaped token value) (htoken : token ≠ .error)
    (hnot : ¬ Viable (w ++ [(token, value)])) :
    ∃ t message, (engine actions config).post token value s = .ok true t ∧ t.accepted = false ∧
      account t = ⟨s.client.diagnostics ++ [⟨s.client.span, message⟩], s.client.span,
        s.stats.errors + 1, true⟩ := by
  obtain ⟨t, hdrive, hcapacity, hdetects⟩ := drive_detects hunfailing hebnf hs hshaped htoken
  cases hdetects with
  | accepted _ hsentence =>
    have hviable : Viable (w ++ [(token, value)]) := ⟨[], by rwa [List.append_nil]⟩
    exact absurd hviable hnot
  | shifted _ _ _ hcells => exact absurd hcells.viable hnot
  | refused hfailed haccepted =>
    have hpost := Engine.post_of_failed hs.closed_eq hrecovery hdrive hfailed
    cases post_reports hrecovery hs.capacity_eq hpost with
    | none haccount =>
      have hopen : t.failed = s.failed := congrArg Account.failed haccount
      rw [hfailed, hs.failed_eq] at hopen
      cases hopen
    | one message haccount => exact ⟨_, message, hpost, haccepted, haccount⟩

theorem postAll_expects (hs : Expects a w s) (hu : ∀ tv ∈ u, Lexed tv) (hviable : Viable (w ++ u)) :
    ∃ t, (∀ rest, (engine actions config).postAll (u ++ rest) s =
        (engine actions config).postAll rest t) ∧
      Expects a (w ++ u) t ∧ account t = account s := by
  induction u generalizing w s with
  | nil => exact ⟨s, fun _ => rfl, by rwa [List.append_nil], rfl⟩
  | cons tv u ih =>
    obtain ⟨hlexed, hu⟩ := List.forall_mem_cons.mp hu
    rw [← List.singleton_append, ← List.append_assoc] at hviable ⊢
    obtain ⟨t, hpost, ht, haccount⟩ :=
      post_expects hunfailing hebnf hrecovery hs hlexed hviable.of_append
    obtain ⟨t', hrest, ht', haccount'⟩ := ih ht hu hviable
    refine ⟨t', fun rest => ?_, ht', haccount'.trans haccount⟩
    exact (Engine.postAll_of_open hpost).trans (hrest rest)

def Token.pair (l : Token) : Terminal × Value := (l.terminal, l.value)

theorem feed_expects {lexed : List Token} (hs : Expects a w s)
    (hlexed : ∀ tv ∈ lexed.map Token.pair, Lexed tv)
    (hviable : Viable (w ++ lexed.map Token.pair)) :
    ∃ t, (∀ rest, feed actions config (lexed.map .ok ++ rest) s = feed actions config rest t) ∧
      Expects a (w ++ lexed.map Token.pair) t ∧ t.client.diagnostics = s.client.diagnostics := by
  induction lexed generalizing w s with
  | nil => exact ⟨s, fun _ => rfl, by rwa [List.map_nil, List.append_nil], rfl⟩
  | cons l lexed ih =>
    obtain ⟨hl, hlexed⟩ := List.forall_mem_cons.mp hlexed
    have hword : w ++ (l :: lexed).map Token.pair = w ++ [l.pair] ++ lexed.map Token.pair := by simp
    rw [hword] at hviable ⊢
    obtain ⟨t, hpost, ht, haccount⟩ := post_expects hunfailing hebnf hrecovery
      (hs.of_client (located actions l s).client) hl hviable.of_append
    have hdiagnostics : t.client.diagnostics = s.client.diagnostics :=
      congrArg Account.diagnostics haccount
    obtain ⟨t', hrest, ht', hdiagnostics'⟩ := ih ht hlexed hviable
    refine ⟨t', fun rest => ?_, ht', hdiagnostics'.trans hdiagnostics⟩
    exact (Engine.bind_of_ok (postToken_of_post hpost)).trans (hrest rest)

theorem feed_rejects {l : Token} (hs : Expects a w s) (hshaped : Shaped l.terminal l.value)
    (hl : l.terminal ≠ .error) (hnot : ¬ Viable (w ++ [l.pair])) (rest : List Lexeme) :
    ∃ t message, (feed actions config (.ok l :: rest) >>= fun _ => conclude) s =
      .error (.raised (.rejected (s.client.diagnostics ++ [⟨l.span, message⟩]))) t := by
  obtain ⟨t, message, hpost, haccepted, haccount⟩ := post_rejects hunfailing hebnf hrecovery
    (hs.of_client (located actions l s).client) hshaped hl hnot
  have hfeed : feed actions config (.ok l :: rest) s = .ok () t :=
    Engine.bind_of_ok (postToken_of_post hpost)
  have hnone : Engine.accepted? t = none := by
    rw [Engine.accepted?, haccepted]
    rfl
  have hdiagnostics : t.client.diagnostics = s.client.diagnostics ++ [⟨l.span, message⟩] :=
    congrArg Account.diagnostics haccount
  obtain ⟨t', -, -, hconclude⟩ := conclude_run t
  rw [hnone, hdiagnostics] at hconclude
  exact ⟨t', message, (Engine.bind_of_ok hfeed).trans hconclude⟩

end Posts

theorem expects_of_fresh (a : Algebra) {t : Session σ} (h : (engine actions config).Fresh t)
    (hcapacity : t.stack.capacity = none) : Expects a [] t where
  failed_eq := h.failed_eq
  accepted_eq := h.accepted_eq
  capacity_eq := hcapacity
  covering := ⟨_, .start a, fresh_shows h⟩

theorem start_expects (a : Algebra) (actions : Actions σ) (hcapacity : config.capacity = none)
    (user : σ) : ∃ s, start actions config user = .ok () s ∧ Expects a [] s ∧
      account s = ⟨[], ⟨0, 0⟩, 0, false⟩ := by
  obtain ⟨s, hstart, hfresh, -, hunbounded, -⟩ := start_fresh actions hcapacity user
  refine ⟨s, hstart, expects_of_fresh a hfresh hunbounded, ?_⟩
  have hbegin := (Engine.of_start hstart).1
  rw [Engine.begin, Engine.reset_eq] at hbegin
  obtain ⟨_, t, hpush, hcommit⟩ := Engine.exists_of_bind_ok hbegin
  cases hcommit
  have haccount : account t = account (Engine.cleared _) :=
    Engine.observe_of_ok ((account_blind actions config).push _) hpush hcapacity
  exact haccount

section Rejected

variable (hunfailing : actions.Unfailing) (hebnf : config.ebnf = true)
  (hrecovery : config.recovery = none)

include hunfailing hebnf hrecovery

section Earliest

variable {k j : Nat} {tv : Terminal × Value} {rest : Word} (h : Earliest u k tv rest)
  (hu : ∀ tv ∈ u, Lexed tv)

include h hu

theorem postAll_before (hs : Expects a [] s) (hj : j ≤ k) :
    ∃ t, (engine actions config).postAll ((ended u).take j) s = .ok false t ∧
      account t = account s := by
  obtain ⟨t, hposts, -, haccount⟩ :=
    postAll_expects hunfailing hebnf hrecovery hs (lexed_take hu j) (h.viable j hj)
  have hnothing := hposts []
  rw [List.append_nil] at hnothing
  rw [h.take_of_le hj]
  exact ⟨t, hnothing, haccount⟩

theorem postAll_rejects (hs : Expects a [] s) :
    ∃ t message, (engine actions config).postAll ((ended u).take (k + 1)) s = .ok true t ∧
      (engine actions config).postAll (ended u) s = .ok true t ∧ t.accepted = false ∧
      account t = ⟨s.client.diagnostics ++ [⟨s.client.span, message⟩], s.client.span,
        s.stats.errors + 1, true⟩ := by
  obtain ⟨hshaped, htoken⟩ := h.shaped hu
  obtain ⟨t, hposts, ht, haccount⟩ :=
    postAll_expects hunfailing hebnf hrecovery hs (lexed_take hu k) (h.viable k le_rfl)
  obtain ⟨t', message, hpost, haccepted, hreport⟩ :=
    post_rejects hunfailing hebnf hrecovery ht hshaped htoken h.not_viable
  obtain ⟨hdiagnostics, hspan, herrors, -⟩ := Account.mk.inj haccount
  rw [hdiagnostics, hspan, herrors] at hreport
  have hstops : ∀ rest, (engine actions config).postAll (u.take k ++ tv :: rest) s = .ok true t' :=
    fun rest => (hposts _).trans (Engine.postAll_of_closed hpost)
  rw [h.take_succ, h.split]
  exact ⟨t', message, hstops [], hstops rest, haccepted, hreport⟩

theorem parse_rejects {source : String} {lexed : List Token} (hcapacity : s.stack.capacity = none)
    (hsource : lexemes source = lexed.map .ok) (hpairs : lexed.map Token.pair = ended u) :
    ∃ t message l, parse actions config source s =
      .error (.raised (.rejected [⟨l.span, message⟩])) t ∧ lexed[k]? = some l := by
  obtain ⟨hshaped, htoken⟩ := h.shaped hu
  have hlexed := lexed_take hu k
  have hviable := h.viable k le_rfl
  have hnot := h.not_viable
  have hlength : (u.take k).length = k := List.length_take_of_le h.le_length
  rw [h.split] at hpairs
  obtain ⟨before, _, rfl, hbefore, hafter⟩ := List.map_eq_append_iff.mp hpairs
  obtain ⟨l, after, rfl, rfl, -⟩ := List.map_eq_cons_iff.mp hafter
  rw [← hbefore] at hlexed hviable hnot hlength
  rw [List.length_map] at hlength
  obtain ⟨t, hparse, hfresh, -, hsame, hclient⟩ :=
    parse_begins actions config (.of_unbounded hcapacity 0) source
  have ht : Expects .exact [] t := expects_of_fresh .exact hfresh (hsame.trans hcapacity)
  obtain ⟨t', hfeed, ht', hdiagnostics⟩ :=
    feed_expects hunfailing hebnf hrecovery ht hlexed hviable
  obtain ⟨t'', message, hrejects⟩ :=
    feed_rejects hunfailing hebnf hrecovery ht' hshaped htoken hnot (after.map .ok)
  have hnone : t'.client.diagnostics = [] := by
    rw [hdiagnostics, hclient]
    rfl
  rw [hnone, List.nil_append] at hrejects
  refine ⟨t'', message, l, ?_, by simp [← hlength]⟩
  rw [hparse, hsource, List.map_append, List.map_cons, ← hrejects]
  have hruns := hfeed (.ok l :: after.map .ok)
  simp only [bind, EStateM.bind, hruns]

end Earliest

/-- The first token after which no sentence goes on is refused with the one diagnostic of the input,
and every post before it is answered. -/
theorem rejects_earliest (hcapacity : config.capacity = none) (user : σ) {tokens : Word}
    (htokens : ∀ tv ∈ tokens, Lexed tv) (hbad : ¬ Sentence (ended tokens)) :
    ∃ k ≤ tokens.length,
      ¬ Viable ((ended tokens).take (k + 1)) ∧
      (∀ j < k, Viable ((ended tokens).take (j + 1))) ∧
      (∃ s, start actions config user = .ok () s ∧
        (∀ j ≤ k, ∃ t, (engine actions config).postAll ((ended tokens).take j) s = .ok false t ∧
          t.client.diagnostics = [] ∧ t.stats.errors = 0) ∧
        ∃ t d, (engine actions config).postAll ((ended tokens).take (k + 1)) s = .ok true t ∧
          (engine actions config).postAll (ended tokens) s = .ok true t ∧
          t.accepted = false ∧ t.failed = true ∧
          t.client.diagnostics = [d] ∧ t.stats.errors = 1) ∧
      ∀ (s : Session σ) (source : String) (lexed : List Token), s.stack.capacity = none →
        lexemes source = lexed.map .ok → lexed.map Token.pair = ended tokens →
        ∃ t d l, parse actions config source s = .error (.raised (.rejected [d])) t ∧
          lexed[k]? = some l ∧ d.span = l.span := by
  obtain ⟨k, tv, rest, h⟩ := exists_earliest hbad
  have hnot : ¬ Viable ((ended tokens).take (k + 1)) := by
    rw [h.take_succ]
    exact h.not_viable
  have hleast : ∀ j < k, Viable ((ended tokens).take (j + 1)) := by
    intro j hj
    rw [h.take_of_le hj]
    exact h.viable _ hj
  refine ⟨k, h.le_length, hnot, hleast, ?_, ?_⟩
  · obtain ⟨s, hstart, hs, haccount⟩ := start_expects .exact actions hcapacity user
    refine ⟨s, hstart, fun j hj => ?_, ?_⟩
    · obtain ⟨t, hposts, haccount'⟩ :=
        postAll_before hunfailing hebnf hrecovery h htokens hs hj
      rw [haccount] at haccount'
      exact ⟨t, hposts, congrArg Account.diagnostics haccount', congrArg Account.errors haccount'⟩
    · obtain ⟨t, message, hstops, hposts, haccepted, hreport⟩ :=
        postAll_rejects hunfailing hebnf hrecovery h htokens hs
      obtain ⟨hdiagnostics, hspan, herrors, -⟩ := Account.mk.inj haccount
      rw [hdiagnostics, hspan, herrors] at hreport
      exact ⟨t, _, hstops, hposts, haccepted, congrArg Account.failed hreport,
        congrArg Account.diagnostics hreport, congrArg Account.errors hreport⟩
  · intro s source lexed hunbounded hsource hpairs
    obtain ⟨t, message, l, hparse, hl⟩ :=
      parse_rejects hunfailing hebnf hrecovery h htokens hunbounded hsource hpairs
    exact ⟨t, _, l, hparse, hl, rfl⟩

end Rejected

section Incomplete

def incomplete : Word := [(.int, .number 1), (.plus, .nothing), (.semicolon, .nothing)]

theorem incomplete_lexed : ∀ tv ∈ incomplete, Lexed tv := by
  intro tv hmem
  simp only [incomplete, List.mem_cons, List.not_mem_nil, or_false] at hmem
  rcases hmem with rfl | rfl | rfl
  · exact ⟨.int 1, nofun, nofun⟩
  · exact ⟨.mark nofun nofun, nofun, nofun⟩
  · exact ⟨.mark nofun nofun, nofun, nofun⟩

def unrecovering : Config Terminal := { defaultConfig with recovery := none }

abbrev exactActions : Actions Unit := Algebra.exact.toActions

theorem incomplete_not_sentence : ¬ Sentence (ended incomplete) := by
  intro hsentence
  obtain ⟨result, haccepts⟩ : ∃ result, Accepts .exact [⟨.start, .value .nothing⟩]
    (ended incomplete) result := (Covering.start .exact).goes hsentence
  obtain ⟨s, hstart, hready⟩ : ∃ s, start exactActions unrecovering () = .ok () s ∧
    Ready [⟨.start, .value .nothing⟩] s := start_ready exactActions rfl ()
  obtain ⟨closed, t, hrun, -, hresult⟩ : ∃ closed t,
      (engine exactActions unrecovering).postAll (ended incomplete) s = .ok closed t ∧ _ :=
    postAll_reads Algebra.exact.toActions_computes rfl rfl (ended_shaped incomplete_lexed) hready
  have hnone : Engine.accepted? (Engine.final ((engine exactActions unrecovering).postAll
      (ended incomplete) (Engine.final (start exactActions unrecovering ())))) = none := by
    decide +kernel
  rw [hstart, Engine.final, hrun, Engine.final] at hnone
  cases hnone.symm.trans ((hresult result).mpr haccepts)

theorem rejects_earliest_incomplete : ∃ s t u d,
    start exactActions unrecovering () = .ok () s ∧
      (engine exactActions unrecovering).postAll (ended incomplete) s = .ok true t ∧
      t.stats.errors = 1 ∧
      parse exactActions unrecovering "1 + ;" s = .error (.raised (.rejected [d])) u ∧
      d.span = ⟨4, 5⟩ := by
  have hunfailing : exactActions.Unfailing := by
    intro call u
    cases call <;> exact ⟨_, u, rfl⟩
  obtain ⟨k, hk, -, -, ⟨s, hstart, hgoes, t, d, hstops, hposts, -, -, -, herrors⟩, hparse⟩ :=
    @rejects_earliest Unit exactActions unrecovering hunfailing rfl rfl rfl () _ incomplete_lexed
      incomplete_not_sentence
  have hlexemes : lexemes "1 + ;" = [⟨.int, .number 1, ⟨0, 1⟩⟩, ⟨.plus, .nothing, ⟨2, 3⟩⟩,
      ⟨.semicolon, .nothing, ⟨4, 5⟩⟩, ⟨.eof, .nothing, ⟨5, 5⟩⟩].map Except.ok := by decide +kernel
  obtain ⟨s', hstart', hready⟩ : ∃ s, start exactActions unrecovering () = .ok () s ∧
    Ready [⟨.start, .value .nothing⟩] s := start_ready exactActions rfl ()
  cases hstart.symm.trans hstart'
  obtain ⟨u, d, l, hrejected, hl, hspan⟩ := hparse s _ _ hready.capacity_eq hlexemes rfl
  have hanswers : ∀ j ∈ [1, 2, 3], answer? (liftRun ((engine exactActions unrecovering).postAll
      ((ended incomplete).take j)) (Engine.final (start exactActions unrecovering ()))) =
        some (decide (3 ≤ j)) := by decide +kernel
  rw [hstart, Engine.final] at hanswers
  have hupper : ¬ 3 ≤ k := by
    intro h
    obtain ⟨t, hopen, -⟩ := hgoes 3 h
    have hclosed := hanswers 3 (by simp)
    rw [liftRun_ok hopen] at hclosed
    cases hclosed
  have hlower : 3 ≤ k + 1 := by
    by_contra h
    have hopen := hanswers (k + 1) (by simp; omega)
    rw [liftRun_ok hstops, decide_eq_false h] at hopen
    cases hopen
  obtain rfl : k = 2 := by omega
  cases hl
  exact ⟨s, t, u, d, hstart, hposts, herrors, hrejected, hspan⟩

end Incomplete

end ShiftReduce.Calculator
