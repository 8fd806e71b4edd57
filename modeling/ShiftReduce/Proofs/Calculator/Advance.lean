import ShiftReduce.Proofs.Calculator.Faithful
import ShiftReduce.Proofs.Calculator.Folded

namespace ShiftReduce.Calculator

open Engine (Follows)

variable {σ : Type} {actions : Actions σ} {config : Config Terminal} {token : Terminal}
  {value : Value} {us : List Value} {gives : List Value → Prop} {cells origin : List Cell}
  {capacity : Option Nat} {s t : Session σ} {r : EStateM.Result (Halt Fault) (Session σ) Unit}

structure Bears (us : List Value) (cells : List Cell) (s : Session σ) : Prop where
  proper : Proper cells
  holds : Holds us cells
  shows : Shows s.stack.base.items cells

theorem Bears.of_base (h : Bears us cells s) (ht : t.stack.base = s.stack.base) :
    Bears us cells t :=
  ⟨h.proper, h.holds, ht ▸ h.shows⟩

theorem Bears.shows_frames (h : Bears us cells s) (hs : s.Settled) :
    Shows s.stack.frames cells := by
  rw [hs.frames_eq]
  exact h.shows

theorem Bears.statements_eq (h : Bears us cells s) (hs : s.Settled) :
    statements s.stack.frames = us :=
  h.holds.statements_eq (h.shows_frames hs)

inductive Stops (actions : Actions σ) (config : Config Terminal) (token : Terminal)
    (cells : List Cell) (capacity : Option Nat) : Prop
  | raised : ¬ actions.Total → Stops actions config token cells capacity
  | unrecovered : config.recovery = none → Stops actions config token cells capacity
  | unhandled : handler cells = [] → Stops actions config token cells capacity
  | crowded : capacity ≠ none → Stops actions config token cells capacity
  | ended : token = config.endToken → Stops actions config token cells capacity

/-- What a post leaves that began on the cells, which hold the statements `us`. If it accepts,
`gives` holds of the statements of the program. -/
inductive Advances (actions : Actions σ) (config : Config Terminal) (token : Terminal)
    (us : List Value) (gives : List Value → Prop) (cells : List Cell) (capacity : Option Nat) :
    Session σ → Prop
  | accepted {t : Session σ} {us' : List Value} : token = .eof → t.failed = false →
      t.accepted = true → gives us' → (actions.program = pure →
        t.result = some (.program (us'.filterMap Value.asStatement?))) →
      Advances actions config token us gives cells capacity t
  | moved {t : Session σ} {us' : List Value} {cells' : List Cell} :
      (token = .eof → token ≠ config.endToken) → t.failed = false → t.accepted = false →
      us <+: us' → Bears us' cells' t → handler cells' ≠ [] →
      Advances actions config token us gives cells capacity t
  | closed {t : Session σ} {cells' : List Cell} : Stops actions config token cells capacity →
      t.failed = true → t.accepted = false → Bears us cells' t →
      Advances actions config token us gives cells capacity t

inductive Comes (actions : Actions σ) (config : Config Terminal) (token : Terminal)
    (us : List Value) (gives : List Value → Prop) (cells : List Cell) (capacity : Option Nat) :
    EStateM.Result (Halt Fault) (Session σ) Unit → Prop
  | answered {t : Session σ} : Advances actions config token us gives cells capacity t →
      Comes actions config token us gives cells capacity (.ok () t)
  | raised {f} {t : Session σ} {cells' : List Cell} : ¬ actions.Total → t.accepted = false →
      Bears us cells' t → Comes actions config token us gives cells capacity (.error (.raised f) t)

theorem Drove.commit (h : Drove actions token gives (.ok () t)) (hopen : t.failed = false)
    (hgives : ∀ us', gives us' → us <+: us') :
    Advances actions config token us gives origin capacity t.commit := by
  cases h with
  | refused hfailed => cases hopen.symm.trans hfailed
  | accepted htoken _ haccepted hus hresult => exact .accepted htoken hopen haccepted hus hresult
  | moved htoken _ haccepted hus hproper hover hshows =>
    refine .moved (fun heof => absurd heof htoken) hopen haccepted (hgives _ hus)
      ⟨hproper, .above hover, hshows⟩ ?_
    rw [hover.handler_eq]
    exact List.cons_ne_nil _ _

theorem Advances.of_ne_eof {gives' : List Value → Prop}
    (h : Advances actions config token us gives cells capacity t) (htoken : token ≠ .eof) :
    Advances actions config token us gives' cells capacity t := by
  cases h with
  | accepted heof => exact absurd heof htoken
  | moved hkept hopen haccepted hus hbears hhandler =>
    exact .moved hkept hopen haccepted hus hbears hhandler
  | closed hstops hfailed haccepted hbears => exact .closed hstops hfailed haccepted hbears

theorem Drove.accepted_eq (h : Drove actions token gives (.ok () t))
    (hfailed : t.failed = true) : t.accepted = false := by
  cases h with
  | refused _ haccepted => exact haccepted
  | accepted _ hopen | moved _ hopen => cases hopen.symm.trans hfailed

section Offering

theorem over_skipping (us : List Value) : Over us (skipping (ground us)) :=
  (over_ground us).cons rfl _

theorem ne_eof_of_skipping {r : EStateM.Result (Halt Fault) (Session σ) Unit}
    (h : Drives actions config token value s (skipping cells) r) (hr : r = .ok () t)
    (hopen : t.failed = false) : token ≠ .eof := by
  rintro rfl
  obtain ⟨u, rfl⟩ := h.of_error rfl
  cases hr
  cases hopen

theorem reposts_comes (h : Engine.Reposts (engine actions config) token value s r)
    (hebnf : config.ebnf = true) (hshaped : Shaped token value)
    (hs : Bears us (skipping (ground us)) s) (hsettled : s.Settled) (hfailed : s.failed = false)
    (haccepted : s.accepted = false) :
    Comes actions config token us gives origin capacity r := by
  have hdrives : Drives actions config token value
      (s.tell (engine actions config) (.reposting token)) (skipping (ground us)) _ :=
    drive_course hebnf hfailed hs.proper (hs.shows_frames hsettled)
  have hdrove := hdrives.drove hshaped hs.proper hfailed haccepted hs.holds
  have hbase := Engine.KeepsBase.drive (engine actions config) token value
    (s.tell (engine actions config) (.reposting token))
  cases h with
  | halted hdrive =>
    rw [hdrive] at hdrove hbase
    cases hdrove with
    | raised htotal haccepted => exact .raised htotal haccepted (hs.of_base hbase.base_eq)
  | taken hdrive hopen =>
    rw [hdrive] at hdrove
    have hadvances : Advances actions config token us _ origin capacity _ :=
      hdrove.commit hopen fun _ => Extends.isPrefix
    exact .answered (hadvances.of_ne_eof (ne_eof_of_skipping hdrives hdrive hopen))
  | endKept hdrive hrefused hend =>
    rw [hdrive] at hdrove hbase
    exact .answered (.closed (.ended hend) hrefused (hdrove.accepted_eq hrefused)
      (hs.of_base hbase.base_eq))
  | discarded hdrive hrefused hend =>
    rw [hdrive] at hdrove hbase
    refine .answered (.moved (fun _ => hend) rfl (hdrove.accepted_eq hrefused) List.prefix_rfl
      (hs.of_base hbase.base_eq) ?_)
    rw [(over_skipping us).handler_eq]
    exact List.cons_ne_nil _ _

inductive Recovery (actions : Actions σ) (config : Config Terminal) (token : Terminal)
    (value : Value) (us : List Value) (cells : List Cell) (s : Session σ) :
    EStateM.Result (Halt Fault) (Session σ) Unit → Prop
  | unhandled {u : Session σ} : handler cells = [] →
      Follows (engine actions config) s.reopened u →
      Recovery actions config token value us cells s (.ok () (u.rollback.fail true))
  | crowded {t : Session σ} : s.stack.capacity ≠ none →
      Follows (engine actions config) s.reopened t →
      Recovery actions config token value us cells s
        (.ok () ((t.fail true).tell (engine actions config) (.recoveryRefused .error)).rollback)
  | skipped {t : Session σ} {r} : Follows (engine actions config) s.reopened t →
      Bears us (skipping (ground us)) t.commit →
      Engine.Reposts (engine actions config) token value t.commit r →
      Recovery actions config token value us cells s r

theorem recovers_recovery (h : Engine.Recovers (engine actions config) token value .error s r)
    (hebnf : config.ebnf = true) (hs : Bears us cells s) :
    Recovery actions config token value us cells s r := by
  have hreopened : Bears us cells s.reopened := hs.of_base rfl
  obtain ⟨found, u, hunwind, hu, hnowhere, hhandler⟩ :=
    unwind_shows actions config hs.proper (hreopened.shows_frames ⟨rfl, rfl⟩)
  cases found with
  | false =>
    obtain rfl := h.eq_unhandled hunwind
    exact .unhandled (hnowhere rfl) hu
  | true =>
    obtain ⟨hne, hshows⟩ := hhandler rfl
    have hhandler := (hs.holds.over_of_handler hne).handler_eq
    rw [hhandler] at hshows
    have hproper : Proper (ground us) := hhandler ▸ hs.proper.handler hne
    have hdrives : Drives actions config .error default u (ground us) _ :=
      drive_course hebnf hu.failed_eq hproper hshows
    obtain ⟨t, ht, ⟨hdrive, hshows⟩ | ⟨hdrive, hcapacity⟩⟩ := hdrives.of_shift rfl
    · have hreposts := h.reposts hunwind hdrive (ht.failed_eq.trans hu.failed_eq)
      exact .skipped (hu.trans ht) ⟨hproper.shift rfl .error, .above (over_skipping us), hshows⟩
        hreposts
    · obtain rfl := h.eq_refused hunwind hdrive rfl
      rw [show u.stack.capacity = _ from hu.base.capacity_eq] at hcapacity
      exact .crowded hcapacity (hu.trans ht)

theorem Recovery.comes (h : Recovery actions config token value us cells s r)
    (hebnf : config.ebnf = true) (hshaped : Shaped token value) (hs : Bears us cells s)
    (haccepted : s.accepted = false) :
    Comes actions config token us gives cells s.stack.capacity r := by
  have hreopened : Bears us cells s.reopened := hs.of_base rfl
  cases h with
  | unhandled hhandler hu =>
    exact .answered (.closed (.unhandled hhandler) rfl (hu.accepted_eq.trans haccepted)
      (hreopened.of_base hu.base.base_eq))
  | crowded hcapacity ht =>
    exact .answered (.closed (.crowded hcapacity) rfl (ht.accepted_eq.trans haccepted)
      (hreopened.of_base ht.base.base_eq))
  | @skipped t _ ht hskipping hreposts =>
    exact reposts_comes hreposts hebnf hshaped hskipping (.commit t) ht.failed_eq
      (ht.accepted_eq.trans haccepted)

end Offering

theorem settles_comes (h : Engine.Settles (engine actions config) token value s r)
    (hconfig : Sane config) (hshaped : Shaped token value) (hs : Bears us cells s)
    (hfailed : s.failed = false) (haccepted : s.accepted = false) :
    Comes actions config token us (Extends actions config token s.opened cells us) cells
      s.stack.capacity r := by
  have hopened : Bears us cells s.opened := hs.of_base rfl
  have hdrove : Drove actions token (Extends actions config token s.opened cells us)
      ((engine actions config).drive token value s.opened) :=
    drive_drove hconfig.ebnf hshaped hs.proper hs.holds (hopened.shows_frames (.rollback _)) hfailed
      haccepted
  have hbase := Engine.KeepsBase.drive (engine actions config) token value s.opened
  cases h with
  | halted hdrive =>
    rw [hdrive] at hdrove hbase
    cases hdrove with
    | raised htotal haccepted => exact .raised htotal haccepted (hopened.of_base hbase.base_eq)
  | taken hdrive hopen =>
    rw [hdrive] at hdrove
    exact .answered (hdrove.commit hopen fun _ => Extends.isPrefix)
  | failed hdrive hrefused hrecovery =>
    rw [hdrive] at hdrove hbase
    exact .answered (.closed (.unrecovered hrecovery) hrefused (hdrove.accepted_eq hrefused)
      (hopened.of_base hbase.base_eq))
  | @recovered t _ _ hdrive hrefused hrecovery hrecovers =>
    rw [hdrive] at hdrove hbase
    obtain rfl := hconfig.recovery _ hrecovery
    have ht : Bears us cells t := hopened.of_base hbase.base_eq
    have hrecovery := recovers_recovery hrecovers hconfig.ebnf ht
    rw [show s.stack.capacity = t.stack.capacity from hbase.capacity_eq.symm]
    exact hrecovery.comes hconfig.ebnf hshaped ht (hdrove.accepted_eq hrefused)

theorem post_advances (hconfig : Sane config) (hshaped : Shaped token value)
    (hs : Bears us cells s) (hopen : s.closed = false) :
    ∃ t, Advances actions config token us (Extends actions config token s.opened cells us) cells
        s.stack.capacity t ∧ t.Settled ∧
      ((engine actions config).post token value s = .ok t.closed t ∨
        ∃ f, (engine actions config).post token value s = .error f t ∧ ¬ actions.Total) := by
  obtain ⟨haccepted, hfailed⟩ := Bool.or_eq_false_iff.mp hopen
  have hcourse := Engine.post_course (engine actions config) token value s
  generalize (engine actions config).post token value s = r at hcourse
  cases hcourse with
  | refused hclosed => cases hopen.symm.trans hclosed
  | @answered t _ hsettles =>
    cases settles_comes hsettles hconfig hshaped hs hfailed haccepted with
    | answered hadvances => exact ⟨t, hadvances, hsettles.settled, .inl rfl⟩
  | @aborted f t _ hsettles =>
    cases settles_comes hsettles hconfig hshaped hs hfailed haccepted with
    | raised htotal haccepted hbears =>
      refine ⟨(t.tell (engine actions config) (.aborting f)).rollback.fail true, ?_, ⟨rfl, rfl⟩,
        .inr ⟨_, rfl, htotal⟩⟩
      exact .closed (.raised htotal) rfl haccepted (hbears.of_base rfl)
  | crashed _ hsettles | exhausted _ hsettles =>
    cases settles_comes hsettles hconfig hshaped hs hfailed haccepted

end ShiftReduce.Calculator
