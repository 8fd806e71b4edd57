import ShiftReduce.Proofs.Calculator.Append
import ShiftReduce.Proofs.Calculator.Language

namespace ShiftReduce.Calculator

variable {σ : Type} {actions : Actions σ} {config : Config Terminal} {token : Terminal}
  {value : Value} {us : List Value} {cells : List Cell} {s t : Session σ}
  {r : EStateM.Result (Halt Fault) (Session σ) Unit}

section Discarding

theorem Drives.discarded_eq (h : Drives actions config token value s cells r) :
    (Engine.final r).stats.discarded = s.stats.discarded := by
  induction h with
  | refused _ ht | accepted _ ht | shifted _ ht | crowded _ ht => exact ht.discarded_eq
  | broke => rfl
  | reduced _ _ _ hw _ _ ih => exact ih.trans hw.discarded_eq
  | overgrown _ _ _ _ hw => exact hw.discarded_eq

theorem drive_discarded (hebnf : config.ebnf = true) (hs : Bears us cells s) (hsettled : s.Settled)
    (hfailed : s.failed = false) (h : (engine actions config).drive token value s = r) :
    (Engine.final r).stats.discarded = s.stats.discarded := by
  have hdrives : Drives actions config token value s cells _ :=
    drive_course hebnf hfailed hs.proper (hs.shows_frames hsettled)
  rw [h] at hdrives
  exact hdrives.discarded_eq

theorem reposts_discarded (h : Engine.Reposts (engine actions config) token value s r)
    (hebnf : config.ebnf = true) (hend : token = config.endToken) (hs : Bears us cells s)
    (hsettled : s.Settled) (hfailed : s.failed = false) :
    (Engine.final r).stats.discarded = s.stats.discarded := by
  have htold : Bears us cells (s.tell (engine actions config) (.reposting token)) := hs.of_base rfl
  cases h with
  | halted hdrive | taken hdrive | endKept hdrive =>
    have hdriven := drive_discarded hebnf htold (hsettled.of_stack rfl) hfailed hdrive
    exact hdriven
  | discarded _ _ hne => exact absurd hend hne

theorem Recovery.discarded_eq (h : Recovery actions config token value us cells s r)
    (hebnf : config.ebnf = true) (hend : token = config.endToken) :
    (Engine.final r).stats.discarded = s.stats.discarded := by
  cases h with
  | unhandled _ hu => exact hu.discarded_eq
  | crowded _ ht => exact ht.discarded_eq
  | skipped ht hskipping hreposts =>
    exact (reposts_discarded hreposts hebnf hend hskipping (.commit _) ht.failed_eq).trans
      ht.discarded_eq

theorem settles_discarded (h : Engine.Settles (engine actions config) token value s r)
    (hconfig : Sane config) (hend : token = config.endToken) (hs : Bears us cells s)
    (hfailed : s.failed = false) : (Engine.final r).stats.discarded = s.stats.discarded := by
  have hopened : Bears us cells s.opened := hs.of_base rfl
  have hbase := Engine.KeepsBase.drive (engine actions config) token value s.opened
  cases h with
  | halted hdrive | taken hdrive | failed hdrive =>
    have hdriven := drive_discarded hconfig.ebnf hopened (.rollback _) hfailed hdrive
    exact hdriven
  | recovered hdrive _ hrecovery hrecovers =>
    have hdriven := drive_discarded hconfig.ebnf hopened (.rollback _) hfailed hdrive
    rw [hdrive] at hbase
    obtain rfl := hconfig.recovery _ hrecovery
    have hrecovered := recovers_recovery hrecovers hconfig.ebnf (hopened.of_base hbase.base_eq)
    exact (hrecovered.discarded_eq hconfig.ebnf hend).trans hdriven

theorem post_end_discarded (hconfig : Sane config) (hend : token = config.endToken)
    (hs : Upheld config s) :
    (Engine.final ((engine actions config).post token value s)).stats.discarded =
      s.stats.discarded := by
  have hcourse := Engine.post_course (engine actions config) token value s
  generalize (engine actions config).post token value s = r at hcourse ⊢
  cases hcourse with
  | refused => rfl
  | answered hopen hsettles | aborted hopen hsettles | crashed hopen hsettles
  | exhausted hopen hsettles =>
    obtain ⟨us, cells, hbears, -⟩ := hs.bears hopen
    have hdiscarded := settles_discarded hsettles hconfig hend hbears
      (Bool.or_eq_false_iff.mp hopen).2
    exact hdiscarded

end Discarding

theorem Recovering.sane (h : Recovering config) : Sane config where
  ebnf := h.ebnf_eq
  recovery t ht := by
    rw [h.recovery_eq] at ht
    exact (Option.some.inj ht).symm

section Answers

variable {capacity : Option Nat} {gives : List Value → Prop}

theorem Advances.accepted_eq (h : Advances actions config token us gives cells capacity t)
    (htoken : token ≠ .eof) : t.accepted = false := by
  cases h with
  | accepted heof => exact absurd heof htoken
  | moved _ _ haccepted | closed _ _ haccepted => exact haccepted

theorem Advances.stays_open (h : Advances actions config token us gives cells none t)
    (hconfig : Recovering config) (htotal : actions.Total) (hhandler : handler cells ≠ [])
    (htoken : token ≠ .eof) : t.closed = false := by
  cases h with
  | accepted heof => exact absurd heof htoken
  | moved _ hfailed haccepted => exact Bool.or_eq_false_iff.mpr ⟨haccepted, hfailed⟩
  | closed hstops =>
    cases hstops with
    | raised hfails => exact absurd htotal hfails
    | unrecovered hnone => cases hconfig.recovery_eq.symm.trans hnone
    | unhandled hnone => exact absurd hnone hhandler
    | crowded hcapacity => exact absurd rfl hcapacity
    | ended hend => exact absurd (hend.trans hconfig.end_eq) htoken

theorem Advances.closes (h : Advances actions config .eof us gives cells capacity t)
    (hend : config.endToken = .eof) : t.closed = true ∧ t.accepted = !t.failed := by
  cases h with
  | accepted _ hfailed haccepted | closed _ hfailed haccepted =>
    rw [ShiftReduce.Session.closed, hfailed, haccepted]
    exact ⟨rfl, rfl⟩
  | moved hkept => exact absurd hend.symm (hkept rfl)

/-- A session that has begun to read goes on with every token but the end of the input, and ends
with that: it has accepted or failed, and not both. Nothing else is accepted, and the end is not
discarded. -/
theorem post_progress (hconfig : Recovering config) (hcapacity : config.capacity = none)
    (htotal : actions.Total) (hs : Visited actions config s) (hopen : s.closed = false)
    (hshaped : Shaped token value) :
    (token ≠ .eof →
      (0 < s.stats.tokens → ∃ t, (engine actions config).post token value s = .ok false t) ∧
        (Engine.final ((engine actions config).post token value s)).accepted = false) ∧
    (token = .eof →
      (0 < s.stats.tokens → ∃ t, (engine actions config).post token value s = .ok true t ∧
        t.accepted = !t.failed) ∧
      (Engine.final ((engine actions config).post token value s)).stats.discarded =
        s.stats.discarded) := by
  have hupheld := hs.upheld hconfig.sane
  obtain ⟨us, cells, hbears, hhandler⟩ := hupheld.bears hopen
  obtain ⟨t, hadvances, -, hpost | ⟨f, -, hfails⟩⟩ :=
    post_advances hconfig.sane hshaped hbears hopen
  · refine ⟨fun htoken => ?_, fun htoken => ?_⟩
    · rw [hupheld.capacity_eq, hcapacity] at hadvances
      rw [hpost]
      refine ⟨fun htokens => ⟨t, ?_⟩, hadvances.accepted_eq htoken⟩
      rw [hadvances.stays_open hconfig htotal (hhandler htokens) htoken]
    · refine ⟨fun _ => ⟨t, ?_⟩, ?_⟩
      · subst htoken
        obtain ⟨hclosed, hone⟩ := hadvances.closes hconfig.end_eq
        rw [hpost, hclosed]
        exact ⟨rfl, hone⟩
      · exact post_end_discarded hconfig.sane (htoken.trans hconfig.end_eq.symm) hupheld
  · exact absurd htotal hfails

section Broken

theorem Algebra.toActions_total (a : Algebra) : (a.toActions : Actions σ).Total := by
  intro call u _
  cases call <;> exact ⟨_, _, rfl⟩

def stuck : Session Unit :=
  posted Algebra.exact.toActions defaultConfig
    (Engine.final (start Algebra.exact.toActions defaultConfig ()))
    [(.int, .number 1), (.int, .number 2)]

theorem post_progress_stuck : stuck.stats.discarded = 1 ∧
    (∃ t, (engine Algebra.exact.toActions defaultConfig).post .rightParen .nothing stuck =
      .ok false t) ∧
    ∃ t, (engine Algebra.exact.toActions defaultConfig).post .eof .nothing stuck = .ok true t ∧
      t.accepted = !t.failed := by
  have hvisited : Visited Algebra.exact.toActions defaultConfig stuck := by
    refine (Visited.start ()).posted fun tv hmem => ?_
    simp only [List.mem_cons, List.not_mem_nil, or_false] at hmem
    rcases hmem with rfl | rfl <;> exact .int _
  have hopen : stuck.closed = false := by decide +kernel
  have htokens : 0 < stuck.stats.tokens := by decide +kernel
  have hparen : Shaped .rightParen .nothing := .mark nofun nofun
  have heof : Shaped .eof .nothing := .mark nofun nofun
  have htotal := @Algebra.toActions_total Unit .exact
  have hgoes := post_progress ⟨rfl, rfl, rfl⟩ rfl htotal hvisited hopen hparen
  have hends := post_progress ⟨rfl, rfl, rfl⟩ rfl htotal hvisited hopen heof
  exact ⟨by decide +kernel, (hgoes.1 nofun).1 htokens, (hends.2 rfl).1 htokens⟩

end Broken

end Answers

end ShiftReduce.Calculator
