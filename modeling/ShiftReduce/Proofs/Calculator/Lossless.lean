import ShiftReduce.Proofs.Calculator.Append
import ShiftReduce.Proofs.Calculator.Calculation
import ShiftReduce.Proofs.Calculator.Remarks
import ShiftReduce.Proofs.Calculator.Skips
import ShiftReduce.Proofs.Calculator.Source

namespace ShiftReduce.Calculator

open Engine (Follows Told)

variable {σ : Type} {actions : Actions σ} {config : Config Terminal} {token : Terminal}
  {value : Value} {us : List Value} {cells : List Cell} {s t : Session σ}

def reported (s : Session σ) : Bool := !s.client.diagnostics.isEmpty

section Diagnostics

theorem drive_reported (hopen : s.failed = false)
    (h : (engine actions config).drive token value s = .ok () t) :
    reported t = (t.failed || reported s) := by
  obtain ⟨messages, hlength, hnoted⟩ := drive_messages hopen h
  rw [reported, reported, hnoted.diagnostics_eq]
  cases hfailed : t.failed with
  | false =>
    rw [hfailed] at hlength
    obtain rfl := List.eq_nil_of_length_eq_zero hlength
    simp
  | true =>
    rw [hfailed] at hlength
    obtain ⟨message, rfl⟩ := List.length_eq_one_iff.mp hlength
    simp

theorem told_reported {c d : Client σ} (h : Told (engine actions config) c d)
    (hc : c.diagnostics ≠ []) : d.diagnostics ≠ [] := by
  induction h with
  | refl => exact hc
  | notify notice _ ih =>
    cases notice with
    | syntaxError | stackOverflow =>
      exact List.append_ne_nil_of_right_ne_nil _ (List.cons_ne_nil _ _)
    | _ => exact ih

theorem reported_eq_true : reported s = true ↔ s.client.diagnostics ≠ [] := by
  simp [reported]

theorem follows_reported (h : Follows (engine actions config) s t) (hs : reported s = true) :
    reported t = true :=
  reported_eq_true.mpr (told_reported h.told (reported_eq_true.mp hs))

end Diagnostics

inductive Candid : Session σ → Prop
  | closed {t : Session σ} : t.failed = true → Candid t
  | accepted {t : Session σ} {results : List (Option Int)} : t.accepted = true →
      t.result = some (.program results) → results.any Option.isNone = reported t → Candid t
  | pending {t : Session σ} {us : List Value} {cells : List Cell} : t.accepted = false →
      Bears us cells t → skips t.stack.base.items = reported t → Candid t

theorem drive_candid (hebnf : config.ebnf = true) (hshaped : Shaped token value)
    (htoken : token ≠ .error) (hs : Bears us cells s) (hsettled : s.Settled)
    (hfailed : s.failed = false) (haccepted : s.accepted = false)
    (hcandid : skips s.stack.base.items = reported s)
    (h : (engine Evaluator.actions config).drive token value s = .ok () t)
    (hopen : t.failed = false) : Candid t.commit := by
  have hshows := hs.shows_frames hsettled
  have hreported : reported t = reported s := by
    rw [drive_reported hfailed h, hopen, Bool.false_or]
  have hdrives : Drives Evaluator.actions config token value s cells _ :=
    drive_course hebnf hfailed hs.proper hshows
  have hretains := hdrives.retains hshaped htoken hs.proper haccepted
  have hdrove := hdrives.drove hshaped hs.proper hfailed haccepted hs.holds
  rw [h, ← hshows.skips_eq, hsettled.frames_eq, hcandid, ← hreported] at hretains
  rw [h] at hdrove
  cases hretains with
  | failed hfailed => cases hopen.symm.trans hfailed
  | accepted haccepted hresult hresults => exact .accepted haccepted hresult hresults
  | moved haccepted hskips =>
    cases hdrove with
    | refused hfailed => cases hopen.symm.trans hfailed
    | accepted _ _ haccepted' => cases haccepted.symm.trans haccepted'
    | moved _ _ _ _ hproper hover hshows =>
      exact .pending haccepted ⟨hproper, .above hover, hshows⟩ hskips

theorem reposts_candid {r : EStateM.Result (Halt Fault) (Session σ) Unit}
    (h : Engine.Reposts (engine Evaluator.actions config) token value s r) (hr : r = .ok () t)
    (hebnf : config.ebnf = true) (hshaped : Shaped token value) (htoken : token ≠ .error)
    (hs : Bears us (skipping (ground us)) s) (hsettled : s.Settled) (hfailed : s.failed = false)
    (haccepted : s.accepted = false) (hreported : reported s = true) : Candid t := by
  have htold := (Follows.refl (e := engine Evaluator.actions config) s).tell (.reposting token)
  have hreported' := follows_reported htold hreported
  have hskips : skips s.stack.base.items = true := hs.shows.skips_eq.trans rfl
  have hs' : Bears us (skipping (ground us))
      (s.tell (engine Evaluator.actions config) (.reposting token)) := hs.of_base rfl
  cases h with
  | halted => cases hr
  | taken hdrive hopen =>
    cases hr
    exact drive_candid hebnf hshaped htoken hs' (hsettled.of_stack rfl) hfailed haccepted
      (hskips.trans hreported'.symm) hdrive hopen
  | endKept _ hrefused =>
    cases hr
    exact .closed hrefused
  | @discarded u hdrive hrefused =>
    cases hr
    have hbase := Engine.KeepsBase.drive (engine Evaluator.actions config) token value
      (s.tell (engine Evaluator.actions config) (.reposting token))
    have hdrove : Drove Evaluator.actions token _ _ :=
      drive_drove hebnf hshaped hs'.proper hs'.holds (hs'.shows_frames (hsettled.of_stack rfl))
        hfailed haccepted
    rw [hdrive] at hbase hdrove
    have hu : Bears us (skipping (ground us)) u := hs'.of_base hbase.base_eq
    have hureported : reported u = true := by
      rw [drive_reported hfailed hdrive, hrefused, Bool.true_or]
    have hdiscarding := (Follows.refl (e := engine Evaluator.actions config) u).tell
      (.discarding token)
    refine .pending (hdrove.accepted_eq hrefused) (hu.of_base rfl) ?_
    exact hu.shows.skips_eq.trans (follows_reported hdiscarding hureported).symm

theorem settles_candid {r : EStateM.Result (Halt Fault) (Session σ) Unit}
    (h : Engine.Settles (engine Evaluator.actions config) token value s r) (hr : r = .ok () t)
    (hconfig : Sane config) (hshaped : Shaped token value) (htoken : token ≠ .error)
    (hs : Bears us cells s) (hfailed : s.failed = false) (haccepted : s.accepted = false)
    (hcandid : skips s.stack.base.items = reported s) : Candid t := by
  have hopened : Bears us cells s.opened := hs.of_base rfl
  cases h with
  | halted => cases hr
  | taken hdrive hopen =>
    cases hr
    exact drive_candid hconfig.ebnf hshaped htoken hopened (.rollback _) hfailed haccepted hcandid
      hdrive hopen
  | failed _ hrefused =>
    cases hr
    exact .closed hrefused
  | @recovered u _ _ hdrive hrefused hrecovery hrecovers =>
    obtain rfl := hconfig.recovery _ hrecovery
    have hbase := Engine.KeepsBase.drive (engine Evaluator.actions config) token value s.opened
    have hdrove : Drove Evaluator.actions token _ _ :=
      drive_drove hconfig.ebnf hshaped hs.proper hs.holds (hopened.shows_frames (.rollback _))
        hfailed haccepted
    rw [hdrive] at hbase hdrove
    have hreported : reported u = true := by
      rw [drive_reported (s := s.opened) hfailed hdrive, hrefused, Bool.true_or]
    cases recovers_recovery hrecovers hconfig.ebnf (hopened.of_base hbase.base_eq) with
    | unhandled =>
      cases hr
      exact .closed rfl
    | crowded =>
      cases hr
      exact .closed rfl
    | @skipped v _ hv hskipping hreposts =>
      have hvreported : reported v = true :=
        follows_reported (s := u.reopened) hv hreported
      exact reposts_candid hreposts hr hconfig.ebnf hshaped htoken hskipping (.commit v)
        hv.failed_eq (hv.accepted_eq.trans (hdrove.accepted_eq hrefused)) hvreported

theorem post_candid {closed : Bool} (hconfig : Sane config) (hshaped : Shaped token value)
    (htoken : token ≠ .error) (hs : Bears us cells s) (hopen : s.closed = false)
    (hcandid : skips s.stack.base.items = reported s)
    (h : (engine Evaluator.actions config).post token value s = .ok closed t) :
    Candid t := by
  obtain ⟨haccepted, hfailed⟩ := Bool.or_eq_false_iff.mp hopen
  have hcourse := Engine.post_course (engine Evaluator.actions config) token value s
  rw [h] at hcourse
  cases hcourse with
  | answered _ hsettles =>
    exact settles_candid hsettles rfl hconfig hshaped htoken hs hfailed haccepted hcandid

theorem Lexer.Formed.ne_error {l : Token} (h : Formed (.ok l)) : l.terminal ≠ .error := by
  generalize hlexeme : (.ok l : Lexeme) = lexeme at h
  cases h with
  | numeral digits span =>
    rw [Lexer.numeral] at hlexeme
    split at hlexeme <;> cases hlexeme
    show Terminal.int ≠ .error
    decide
  | symbol c span =>
    rw [Lexer.symbol] at hlexeme
    split at hlexeme
    next t ht =>
      cases hlexeme
      exact (punctuation?_inner ht).2
    next => cases hlexeme
  | name name span =>
    cases hlexeme
    show Terminal.ident ≠ .error
    decide
  | eof span =>
    cases hlexeme
    show Terminal.eof ≠ .error
    decide

theorem feed_candid {lexemes : List Lexeme} (hconfig : Sane config)
    (hlexemes : ∀ l ∈ lexemes, Lexer.Formed l) (hs : Bears us cells s) (hopen : s.closed = false)
    (hcandid : skips s.stack.base.items = reported s)
    (h : feed Evaluator.actions config lexemes s = .ok () t) : Candid t := by
  induction lexemes generalizing s us cells with
  | nil =>
    cases h
    exact .pending (Bool.or_eq_false_iff.mp hopen).1 hs hcandid
  | cons l rest ih =>
    obtain ⟨hl, hrest⟩ := List.forall_mem_cons.mp hlexemes
    cases l with
    | error e => cases h
    | ok l =>
      obtain ⟨closed, u, htoken, hfeed⟩ := Engine.exists_of_bind_ok h
      have hpost : (engine Evaluator.actions config).post l.terminal l.value
          (located Evaluator.actions l s) = .ok closed u := ok_of_liftRun htoken
      have hu := post_candid (s := located Evaluator.actions l s) hconfig hl.legible hl.ne_error
        (hs.of_base rfl) hopen hcandid hpost
      obtain rfl := Engine.post_answer hpost
      cases hclosed : u.closed with
      | true =>
        rw [hclosed] at hfeed
        cases hfeed
        exact hu
      | false =>
        rw [hclosed] at hfeed
        obtain ⟨haccepted, hfailed⟩ := Bool.or_eq_false_iff.mp hclosed
        cases hu with
        | closed hfailed' => cases hfailed.symm.trans hfailed'
        | accepted haccepted' => cases haccepted.symm.trans haccepted'
        | pending _ hbears hcandid => exact ih hrest hbears hclosed hcandid hfeed

theorem Candid.conclude {outcome : Outcome} (hs : Candid s)
    (h : Calculator.conclude s = .ok outcome t) :
    outcome.results.any Option.isNone = !outcome.diagnostics.isEmpty := by
  obtain ⟨u, -, -, hrun⟩ := conclude_run s
  rw [hrun, Engine.accepted?] at h
  cases hs with
  | closed hfailed =>
    rw [hfailed, Bool.not_true, Bool.and_false] at h
    cases h
  | pending haccepted =>
    rw [haccepted, Bool.false_and] at h
    cases h
  | accepted haccepted hresult hresults =>
    rw [hresult] at h
    split at h
    next hvalue =>
      cases h
      split at hvalue <;> cases hvalue
      exact hresults
    next => cases h
    next => cases h

/-- When a source comes to an outcome, a statement has no result just when something was reported:
neither a syntax error nor an overflow is passed over, and nothing is skipped unsaid. -/
theorem parse_lossless (hebnf : config.ebnf = true)
    (hrecovery : ∀ t, config.recovery = some t → t = .error)
    (hcapacity : ∀ n, config.capacity = some n → 1 ≤ n) (user : σ) (history : List String)
    (source : String) {outcome : Outcome}
    (h : parse Evaluator.actions config source (served Evaluator.actions config user history) =
      .ok outcome t) : outcome.diagnostics = [] ↔ none ∉ outcome.results := by
  have hconfig : Sane config := ⟨hebnf, hrecovery⟩
  have hvisited : Visited Evaluator.actions config (served Evaluator.actions config user history) :=
    served_visited user history
  have hserved := hvisited.upheld hconfig
  obtain ⟨s, hparse, hfresh, -, -, hclient⟩ := parse_begins Evaluator.actions config
    (hserved.capacity_eq ▸ hcapacity) source
  rw [hparse] at h
  obtain ⟨_, u, hfeed, hconclude⟩ := Engine.exists_of_bind_ok h
  have hbears : Bears [] [⟨.start, .value .nothing⟩] s := ⟨.start, .start, fresh_shows hfresh⟩
  have hopen : s.closed = false := by
    rw [ShiftReduce.Session.closed, hfresh.accepted_eq, hfresh.failed_eq]
    rfl
  have hcandid : skips s.stack.base.items = reported s := by
    rw [hbears.shows.skips_eq, reported, hclient]
    rfl
  have hresults := (feed_candid hconfig (Lexer.scan_formed 0 source.toList) hbears hopen hcandid
    hfeed).conclude hconclude
  have hnone : none ∈ outcome.results ↔ outcome.results.any Option.isNone = true := by simp
  rw [hnone, hresults]
  simp

section Crowded

def cramped : Config Terminal := { defaultConfig with capacity := some 6 }

theorem parse_lossless_nested :
    ∃ (outcome : Outcome) (t : Session Unit),
      parse Evaluator.actions cramped "1; ((((2)))); 3;"
        (served Evaluator.actions cramped () ["1 +", "4 / 0;"]) = .ok outcome t ∧
      none ∈ outcome.results ∧ outcome.diagnostics ≠ [] := by
  have hanswer : (answer? (parse Evaluator.actions cramped "1; ((((2)))); 3;"
      (served Evaluator.actions cramped () ["1 +", "4 / 0;"]))).map Outcome.results =
      some [some 1, none, some 3] := by decide +kernel
  cases hparse : parse Evaluator.actions cramped "1; ((((2)))); 3;"
    (served Evaluator.actions cramped () ["1 +", "4 / 0;"]) with
  | ok outcome t =>
    rw [hparse] at hanswer
    have hresults : outcome.results = [some 1, none, some 3] := Option.some.inj hanswer
    have hnone : none ∈ outcome.results := by simp [hresults]
    refine ⟨outcome, t, rfl, hnone, fun hdiagnostics => ?_⟩
    have hrecovery : ∀ t, cramped.recovery = some t → t = .error :=
      fun _ h => (Option.some.inj h).symm
    have hcapacity : ∀ n, cramped.capacity = some n → 1 ≤ n :=
      fun _ h => Option.some.inj h ▸ Nat.le_add_left 1 5
    have hlossless := parse_lossless rfl hrecovery hcapacity () _ _ hparse
    exact hlossless.mp hdiagnostics hnone
  | error halt t =>
    rw [hparse] at hanswer
    cases hanswer

end Crowded

end ShiftReduce.Calculator
