import ShiftReduce.Proofs.Calculator.Complete
import ShiftReduce.Proofs.Calculator.Drive
import ShiftReduce.Proofs.Calculator.Sound
import Mathlib.Algebra.Ring.Int.Defs

namespace ShiftReduce.Calculator

open Engine (Follows)

variable {σ : Type} {actions : Actions σ} {config : Config Terminal} {a : Algebra}

structure Actions.Computes (a : Algebra) (actions : Actions σ) : Prop where
  add : ∀ m n u, ∃ u', actions.add m n u = .ok (a.add m n) u'
  sub : ∀ m n u, ∃ u', actions.sub m n u = .ok (a.sub m n) u'
  mul : ∀ m n u, ∃ u', actions.mul m n u = .ok (a.mul m n) u'
  div : ∀ m n u, ∃ u', actions.div m n u = .ok (a.div m n) u'
  neg : ∀ n u, ∃ u', actions.neg n u = .ok (a.neg n) u'
  call : ∀ name ns u, ∃ u', actions.call name (ns.map .ok) u = .ok (a.call name ns) u'
  statement : ∀ n u, ∃ u', actions.statement n u = .ok (a.statement n) u'
  program : actions.program = pure

theorem map_ok {α : Type} {f : α → Value} {act : Act σ α} {x : α} {u : σ}
    (h : ∃ u', act u = .ok x u') : ∃ u', (f <$> act) u = .ok (f x) u' := by
  obtain ⟨u', h⟩ := h
  refine ⟨u', ?_⟩
  rw [map_eq_pure_bind]
  simp only [bind, EStateM.bind, h]
  rfl

theorem Actions.Computes.perform (h : actions.Computes a) {call : Call} (hclean : call.Clean)
    (hcall : call ≠ .recovered) (u : σ) :
    ∃ u', actions.perform call u = .ok (a.answer call) u' := by
  cases call with
  | program results =>
    refine map_ok ⟨u, ?_⟩
    rw [h.program]
    rfl
  | statement n => exact map_ok (h.statement n u)
  | recovered => exact absurd rfl hcall
  | add m n => exact map_ok (h.add m n u)
  | sub m n => exact map_ok (h.sub m n u)
  | mul m n => exact map_ok (h.mul m n u)
  | div m n => exact map_ok (h.div m n u)
  | neg n => exact map_ok (h.neg n u)
  | call name arguments =>
    have hcalled := h.call name (arguments.filterMap Except.toOption) u
    rw [← clean_eq_map hclean] at hcalled
    exact map_ok hcalled

theorem Works.eq_content (h : actions.Computes a) {work : Work} {c : Content} {u u' : σ}
    (hworks : Works actions work u c u') (hclean : work.Clean)
    (hwork : work ≠ .perform .recovered) : c = a.content work := by
  cases hworks with
  | done => rfl
  | @perform call _ v _ hcall =>
    have hclean : call.Clean := hclean
    obtain ⟨u'', hanswer⟩ := h.perform hclean (fun h => hwork (h ▸ rfl)) u
    rw [hcall] at hanswer
    cases hanswer
    rfl

structure Unbroken (cells : List Cell) : Prop extends Proper cells where
  no_error : ∀ cell ∈ cells, cell.state.entry ≠ .terminal .error

namespace Unbroken

variable {cell : Cell} {cells below : List Cell} {t : Terminal} {next : State}

theorem shift {v : Value} (h : Unbroken (cell :: cells))
    (haction : action cell.state t = .shift next) (hshaped : Shaped t v) (ht : t ≠ .error) :
    Unbroken (⟨next, .value v⟩ :: cell :: cells) := by
  refine ⟨h.toProper.shift haction hshaped, fun other hmem => ?_⟩
  rcases List.mem_cons.mp hmem with rfl | hmem
  · rw [State.entry_of_shift haction]
    intro hentry
    cases hentry
    exact ht rfl
  · exact h.no_error other hmem

theorem reduces {p : Production} {work : Work} (h : Unbroken (cell :: cells))
    (haction : action cell.state t = .reduce p)
    (hreduces : Reduces p (cell :: cells) work next below) :
    work.Clean ∧ work ≠ .perform .recovered ∧
      ∀ c, work.Yields c → Unbroken (⟨next, c⟩ :: below) := by
  obtain ⟨hclean, hproper⟩ := h.toProper.reduces_clean haction hreduces
  refine ⟨hclean, ?_, fun c hc => ⟨hproper c hc, fun other hmem => ?_⟩⟩
  · rintro rfl
    obtain ⟨other, hmem, hentry⟩ := hreduces.exists_error
    exact h.no_error other hmem hentry
  · rcases List.mem_cons.mp hmem with rfl | hmem
    · rw [hreduces.entry_eq]
      exact nofun
    · exact h.no_error other (hreduces.below_subset hmem)

end Unbroken

inductive Reads (a : Algebra) (token : Terminal) (value : Value) (cells : List Cell)
    (s : Session σ) : Prop
  | refused : s.failed = true → s.accepted = false →
      (∀ rest result, ¬ Accepts a cells ((token, value) :: rest) result) →
      Reads a token value cells s
  | accepted {v} : s.failed = false → s.accepted = true → s.result = some v →
      (∀ rest result, Accepts a cells ((token, value) :: rest) result ↔ result = v) →
      Reads a token value cells s
  | shifted {cells'} : s.failed = false → s.accepted = false → Unbroken cells' →
      Shows s.stack.frames cells' →
      (∀ rest result, Accepts a cells ((token, value) :: rest) result ↔
        Accepts a cells' rest result) →
      Reads a token value cells s

theorem Reads.of_iff {token : Terminal} {value : Value} {cells cells' : List Cell} {s : Session σ}
    (h : Reads a token value cells' s) (hiff : ∀ rest result,
      Accepts a cells ((token, value) :: rest) result ↔
        Accepts a cells' ((token, value) :: rest) result) : Reads a token value cells s := by
  cases h with
  | refused hfailed haccepted hnot =>
    exact .refused hfailed haccepted fun rest result h => hnot rest result ((hiff rest result).mp h)
  | accepted hfailed haccepted hresult h =>
    exact .accepted hfailed haccepted hresult fun rest result =>
      (hiff rest result).trans (h rest result)
  | shifted hfailed haccepted hcells hs h =>
    exact .shifted hfailed haccepted hcells hs fun rest result =>
      (hiff rest result).trans (h rest result)

theorem Drives.reads {token : Terminal} {value : Value} {s : Session σ} {cells : List Cell}
    {r : EStateM.Result (Halt Fault) (Session σ) Unit}
    (h : Drives actions config token value s cells r)
    (hcomputes : actions.Computes a) (hshaped : Shaped token value) (htoken : token ≠ .error)
    (hcells : Unbroken cells) (hcapacity : s.stack.capacity = none) (hfailed : s.failed = false)
    (haccepted : s.accepted = false) :
    ∃ t, r = .ok () t ∧ Engine.SameBase s t ∧ Reads a token value cells t := by
  induction h with
  | refused haction ht =>
    exact ⟨_, rfl, ht.base.trans (.of_stack rfl), .refused rfl (ht.accepted_eq.trans haccepted)
      fun rest result => not_accepts haction⟩
  | accepted haction ht hs =>
    exact ⟨_, rfl, ht.base.trans (.of_stack rfl), .accepted (ht.failed_eq.trans hfailed) rfl rfl
      fun rest result => accepts_accept_iff haction⟩
  | shifted haction ht hs =>
    exact ⟨_, rfl, ht.base, .shifted (ht.failed_eq.trans hfailed) (ht.accepted_eq.trans haccepted)
      (hcells.shift haction hshaped htoken) hs fun rest result => accepts_shift_iff haction⟩
  | crowded hbounded => exact absurd hcapacity hbounded
  | overgrown _ _ _ hbounded => exact absurd hcapacity hbounded
  | reduced haction hreduces hworks hw hs _ ih =>
    obtain ⟨hclean, hwork, hnext⟩ := hcells.reduces haction hreduces
    have hcontent := hworks.eq_content hcomputes hclean hwork
    have hbase := (serve_base Engine.Follows.reducing.base _).trans hw.base
    obtain ⟨t, hr, htbase, hreads⟩ := ih (hnext _ hworks.yields) (hbase.capacity_eq.trans hcapacity)
      (hw.failed_eq.trans hfailed) (hw.accepted_eq.trans haccepted)
    refine ⟨t, hr, hbase.trans htbase, hreads.of_iff fun rest result => ?_⟩
    rw [hcontent]
    exact accepts_reduce_iff haction hreduces
  | @broke _ _ _ _ call _ _ _ _ haction hreduces hcall =>
    obtain ⟨hclean, hwork, _⟩ := hcells.reduces haction hreduces
    have hclean : call.Clean := hclean
    obtain ⟨u, hanswer⟩ := hcomputes.perform hclean (fun h => hwork (h ▸ rfl)) _
    rw [hanswer] at hcall
    cases hcall

structure Ready (cells : List Cell) (s : Session σ) : Prop where
  failed_eq : s.failed = false
  accepted_eq : s.accepted = false
  capacity_eq : s.stack.capacity = none
  unbroken : Unbroken cells
  shows : Shows s.stack.base.items cells

section Posts

variable {token : Terminal} {value : Value} {s : Session σ} {cells : List Cell}

theorem drive_reads (hcomputes : actions.Computes a) (hebnf : config.ebnf = true)
    (hs : Ready cells s) (hshaped : Shaped token value) (htoken : token ≠ .error) :
    ∃ t, (engine actions config).drive token value s.opened = .ok () t ∧
      t.stack.capacity = none ∧ Reads a token value cells t := by
  have hdrives : Drives actions config token value s.opened cells _ :=
    drive_course hebnf hs.failed_eq hs.unbroken.toProper hs.shows
  obtain ⟨t, hdrive, hbase, hreads⟩ := hdrives.reads hcomputes hshaped htoken hs.unbroken
    hs.capacity_eq hs.failed_eq hs.accepted_eq
  exact ⟨t, hdrive, hbase.capacity_eq.trans hs.capacity_eq, hreads⟩

theorem settle_reads (hcomputes : actions.Computes a) (hebnf : config.ebnf = true)
    (hrecovery : config.recovery = none) (hs : Ready cells s) (hshaped : Shaped token value)
    (htoken : token ≠ .error) :
    ∃ t, (engine actions config).settle token value s = .ok () t ∧ t.stack.capacity = none ∧
      t.stack.base.items = t.stack.frames ∧ Reads a token value cells t := by
  obtain ⟨t, hrun, hcapacity, hreads⟩ := drive_reads hcomputes hebnf hs hshaped htoken
  have hcourse := Engine.settle_course (engine actions config) token value s
  generalize (engine actions config).settle token value s = r at hcourse
  cases hcourse with
  | halted hdrive =>
    rw [hrun] at hdrive
    cases hdrive
  | taken hdrive hfailed =>
    rw [hrun] at hdrive
    cases hdrive
    refine ⟨t.commit, rfl, hcapacity, rfl, ?_⟩
    cases hreads with
    | refused hrefused =>
      rw [hfailed] at hrefused
      cases hrefused
    | accepted _ haccepted hresult hiff => exact .accepted hfailed haccepted hresult hiff
    | shifted _ haccepted hcells hshows hiff => exact .shifted hfailed haccepted hcells hshows hiff
  | failed hdrive hfailed =>
    rw [hrun] at hdrive
    cases hdrive
    refine ⟨t.rollback, rfl, hcapacity, rfl, ?_⟩
    cases hreads with
    | refused _ haccepted hnot => exact .refused hfailed haccepted hnot
    | accepted hopen | shifted hopen =>
      rw [hfailed] at hopen
      cases hopen
  | recovered _ _ hsome =>
    rw [show (engine actions config).config.recovery = none from hrecovery] at hsome
    cases hsome

theorem post_reads (hcomputes : actions.Computes a) (hebnf : config.ebnf = true)
    (hrecovery : config.recovery = none) (hs : Ready cells s) (hshaped : Shaped token value)
    (htoken : token ≠ .error) :
    ∃ t, (engine actions config).post token value s = .ok t.closed t ∧ t.stack.capacity = none ∧
      t.stack.base.items = t.stack.frames ∧ Reads a token value cells t := by
  obtain ⟨t, hrun, ht⟩ := settle_reads hcomputes hebnf hrecovery hs hshaped htoken
  have hopen : s.closed = false := by
    rw [ShiftReduce.Session.closed, hs.accepted_eq, hs.failed_eq]
    rfl
  exact ⟨t, Engine.post_of_settle hopen hrun, ht⟩

end Posts

theorem postAll_reads (hcomputes : actions.Computes a) (hebnf : config.ebnf = true)
    (hrecovery : config.recovery = none) {input : Word}
    (hinput : ∀ tv ∈ input, Shaped tv.1 tv.2 ∧ tv.1 ≠ .error) {s : Session σ} {cells : List Cell}
    (hs : Ready cells s) :
    ∃ closed t, (engine actions config).postAll input s = .ok closed t ∧
      (t.accepted = true → ∃ result, Engine.accepted? t = some result) ∧
      ∀ result, Engine.accepted? t = some result ↔ Accepts a cells input result := by
  -- A post settles whether the rest can be accepted, or leaves cells to go on from.
  induction input generalizing s cells with
  | nil =>
    refine ⟨false, s, rfl, ?_, fun result => ?_⟩
    · rw [hs.accepted_eq]
      exact fun haccepted => absurd haccepted Bool.false_ne_true
    · rw [Engine.accepted?, hs.accepted_eq]
      refine ⟨fun hnone => ?_, fun haccepts => ?_⟩
      · cases hnone
      · cases haccepts
  | cons tv rest ih =>
    obtain ⟨token, value⟩ := tv
    obtain ⟨hshaped, htoken⟩ := hinput _ List.mem_cons_self
    obtain ⟨t, hpost, hcapacity, hbase, hreads⟩ :=
      post_reads hcomputes hebnf hrecovery hs hshaped htoken
    cases hreads with
    | refused hfailed haccepted hnot =>
      rw [ShiftReduce.Session.closed, hfailed, Bool.or_true] at hpost
      refine ⟨true, t, Engine.postAll_of_closed hpost, ?_, fun result => ?_⟩
      · rw [haccepted]
        exact fun haccepted => absurd haccepted Bool.false_ne_true
      · rw [Engine.accepted?, haccepted]
        refine ⟨fun hnone => ?_, fun h => absurd h (hnot rest result)⟩
        cases hnone
    | @accepted v hopen haccepted hresult hiff =>
      rw [ShiftReduce.Session.closed, haccepted, Bool.true_or] at hpost
      have hvalue : Engine.accepted? t = some v := by
        rw [Engine.accepted?, haccepted, hopen]
        exact hresult
      refine ⟨true, t, Engine.postAll_of_closed hpost, fun _ => ⟨_, hvalue⟩, fun result => ?_⟩
      rw [hiff, hvalue, Option.some_inj]
      exact eq_comm
    | shifted hopen haccepted hcells hshows hiff =>
      rw [ShiftReduce.Session.closed, haccepted, hopen] at hpost
      rw [← hbase] at hshows
      obtain ⟨closed, u, hrun, haccepts, hresult⟩ :=
        ih (fun tv htv => hinput tv (List.mem_cons_of_mem _ htv))
          ⟨hopen, haccepted, hcapacity, hcells, hshows⟩
      refine ⟨closed, u, (Engine.postAll_of_open hpost).trans hrun, haccepts, fun result => ?_⟩
      rw [hresult, hiff]

theorem start_ready (actions : Actions σ) (hcapacity : config.capacity = none) (user : σ) :
    ∃ s, start actions config user = .ok () s ∧ Ready [⟨.start, .value .nothing⟩] s := by
  obtain ⟨s, hstart, hfresh, -, hcapacity, -⟩ := start_fresh actions hcapacity user
  refine ⟨s, hstart, hfresh.failed_eq, hfresh.accepted_eq, hcapacity, ⟨.start, ?_⟩,
    fresh_shows hfresh⟩
  intro cell hmem
  rw [List.mem_singleton.mp hmem]
  exact nofun

theorem accepted_of_accepted? {s : Session σ} {result : Value}
    (h : Engine.accepted? s = some result) : s.accepted = true := by
  rw [Engine.accepted?] at h
  cases haccepted : s.accepted with
  | true => rfl
  | false =>
    rw [haccepted] at h
    cases h

/-- A new session accepts exactly the words that a tree derives, with what the tree denotes. -/
theorem accepted_iff_derivable (hcomputes : actions.Computes a) (hebnf : config.ebnf = true)
    (hrecovery : config.recovery = none) (hcapacity : config.capacity = none) (user : σ)
    {tokens : Word} (htokens : ∀ tv ∈ tokens, Lexed tv) :
    ∃ s closed t, start actions config user = .ok () s ∧
      (engine actions config).postAll (tokens ++ [(.eof, .nothing)]) s = .ok closed t ∧
      (t.accepted = true ↔ ∃ tree : Tree .program, tree.yield = tokens) ∧
      ∀ tree : Tree .program, tree.yield = tokens →
        Engine.accepted? t = some (.program (tree.eval a)) := by
  obtain ⟨s, hstart, hready⟩ := start_ready actions hcapacity user
  have hinput : ∀ tv ∈ tokens ++ [(.eof, .nothing)], Shaped tv.1 tv.2 ∧ tv.1 ≠ .error := by
    intro tv hmem
    rcases List.mem_append.mp hmem with hmem | hmem
    · exact ⟨(htokens tv hmem).1, (htokens tv hmem).2.2⟩
    · rw [List.mem_singleton.mp hmem]
      exact ⟨.mark nofun nofun, nofun⟩
  obtain ⟨closed, t, hrun, haccepted, hresult⟩ :=
    postAll_reads hcomputes hebnf hrecovery hinput hready
  have hvalue : ∀ tree : Tree .program, tree.yield = tokens →
      Engine.accepted? t = some (.program (tree.eval a)) := by
    rintro tree rfl
    rw [hresult]
    exact .of_tree tree rfl (List.mem_singleton_self _) (.accept rfl)
  refine ⟨s, closed, t, hstart, hrun, ⟨fun h => ?_, fun ⟨tree, htree⟩ => ?_⟩, hvalue⟩
  · obtain ⟨result, hsome⟩ := haccepted h
    rw [hresult] at hsome
    exact hsome.tree (.start _) .start rfl htokens
  · exact accepted_of_accepted? (hvalue tree htree)

section Pure

def Algebra.toActions (a : Algebra) : Actions σ where
  add m n := pure (a.add m n)
  sub m n := pure (a.sub m n)
  mul m n := pure (a.mul m n)
  div m n := pure (a.div m n)
  neg n := pure (a.neg n)
  call name arguments := pure (a.call name (arguments.filterMap Except.toOption))
  statement n := pure (a.statement n)

theorem Algebra.toActions_computes (a : Algebra) : (a.toActions : Actions σ).Computes a where
  add m n u := ⟨u, rfl⟩
  sub m n u := ⟨u, rfl⟩
  mul m n u := ⟨u, rfl⟩
  div m n u := ⟨u, rfl⟩
  neg n u := ⟨u, rfl⟩
  call name ns u := by
    have hns : (ns.map Except.ok).filterMap (Except.toOption (ε := Error)) = ns := by
      rw [List.filterMap_map]
      exact List.filterMap_some
    exact ⟨u, congrArg (fun ns => EStateM.Result.ok (a.call name ns) u) hns⟩
  statement n u := ⟨u, rfl⟩
  program := rfl

def Algebra.exact : Algebra where
  add m n := m + n
  sub m n := m - n
  mul m n := m * n
  div m n := m.tdiv n
  neg n := -n
  call _ ns := ns.sum
  statement := some

theorem accepted_sum :
    ∃ s closed t, start Algebra.exact.toActions { defaultConfig with recovery := none } () = .ok () s ∧
      (engine Algebra.exact.toActions { defaultConfig with recovery := none }).postAll
        [(.int, .number 1), (.plus, .nothing), (.int, .number 2), (.semicolon, .nothing),
          (.eof, .nothing)] s = .ok closed t ∧
      t.accepted = true ∧ Engine.accepted? t = some (.program [some 3]) := by
  have htokens : ∀ tv ∈ [(.int, .number 1), (.plus, .nothing), (.int, .number 2),
      (.semicolon, .nothing)], Lexed tv := by
    intro tv hmem
    simp only [List.mem_cons, List.not_mem_nil, or_false] at hmem
    rcases hmem with rfl | rfl | rfl | rfl
    · exact ⟨.int 1, nofun, nofun⟩
    · exact ⟨.mark nofun nofun, nofun, nofun⟩
    · exact ⟨.int 2, nofun, nofun⟩
    · exact ⟨.mark nofun nofun, nofun, nofun⟩
  let tree : Tree .program := .program (.nextStatement .noStatement (.evaluated
    (.sum (.onlyTerm (.onlyFactor (.literal 1))) (.onlyFactor (.literal 2)))))
  obtain ⟨s, closed, t, hstart, hrun, haccepted, hvalue⟩ :=
    @accepted_iff_derivable Unit _ { defaultConfig with recovery := none } _
      Algebra.exact.toActions_computes rfl rfl rfl () _ htokens
  exact ⟨s, closed, t, hstart, hrun, haccepted.mpr ⟨tree, rfl⟩, hvalue tree rfl⟩

end Pure

end ShiftReduce.Calculator
