import ShiftReduce.Proofs.Calculator.Machine
import ShiftReduce.Proofs.Calculator.Parse
import ShiftReduce.Proofs.Engine.Unwind

namespace ShiftReduce.Calculator

open Engine (Follows)

variable {σ α : Type} {actions : Actions σ} {config : Config Terminal} {m : Arithmetic}

def reply : EStateM.Result Error σ α → Except Error α
  | .ok a _ => .ok a
  | .error e _ => .error e

structure Actions.Answers (m : Arithmetic) (actions : Actions σ) : Prop where
  reply_eq : ∀ {call}, call.Clean → ∀ u, reply (actions.perform call u) = m.answer call
  computed : ∀ {call e}, m.answer call = .error e → e.Computed

namespace Actions.Answers

variable {call : Call} {u u' : σ}

theorem content_ok (h : actions.Answers m) {work : Work} {c : Content} (hclean : work.Clean)
    (hworks : Works actions work u c u') : m.content work = .ok c := by
  cases hworks with
  | done => rfl
  | perform hcall =>
    have hreply := h.reply_eq hclean u
    rw [hcall] at hreply
    rw [Arithmetic.content, ← hreply]
    rfl

theorem content_error (h : actions.Answers m) {e : Error} (hclean : call.Clean)
    (hcall : actions.perform call u = .error e u') : m.content (.perform call) = .error e := by
  have hreply := h.reply_eq hclean u
  rw [hcall] at hreply
  rw [Arithmetic.content, ← hreply]
  rfl

end Actions.Answers

structure Running (s : Session σ) : Prop where
  failed_eq : s.failed = false
  accepted_eq : s.accepted = false
  capacity_eq : s.stack.capacity = none

theorem Running.closed_eq {s : Session σ} (h : Running s) : s.closed = false := by
  rw [ShiftReduce.Session.closed, h.accepted_eq, h.failed_eq]
  rfl

theorem Running.follows {s t : Session σ} (h : Running s)
    (ht : Follows (engine actions config) s t) : Running t where
  failed_eq := ht.failed_eq.trans h.failed_eq
  accepted_eq := ht.accepted_eq.trans h.accepted_eq
  capacity_eq := ht.base.capacity_eq.trans h.capacity_eq

theorem Running.serve {s : Session σ} (h : Running s) (user : σ) : Running (serve user s) :=
  ⟨h.failed_eq, h.accepted_eq, h.capacity_eq⟩

structure Awaits (cells : List Cell) (s : Session σ) : Prop extends Running s where
  proper : Proper cells
  shows : Shows s.stack.frames cells

inductive Reaches : Verdict → EStateM.Result (Halt Fault) (Session σ) Unit → Prop
  | refused {t : Session σ} : Running t → Reaches .refused (.ok () (t.fail true))
  | accepted {t : Session σ} {results} : Running t → Reaches (.accepted (.program results))
      (.ok () { t with accepted := true, result := some (.program results) })
  | moved {t : Session σ} {cells} : Awaits cells t → Reaches (.moved cells) (.ok () t)
  | broke {t : Session σ} {e f} : t.client.failure = some e → t.stack.capacity = none →
      Reaches (.broke e) (.error (.raised f) t)

section Posts

variable {token : Terminal} {value : Value} {s : Session σ} {cells : List Cell}
  {r : EStateM.Result (Halt Fault) (Session σ) Unit}

theorem Drives.reaches (h : Drives actions config token value s cells r)
    (hanswers : actions.Answers m) (hshaped : Shaped token value) (hcells : Proper cells)
    (hs : Running s) : ∃ verdict, Decides m token value cells verdict ∧ Reaches verdict r := by
  induction h with
  | refused haction ht => exact ⟨_, .refuse haction, .refused (hs.follows ht)⟩
  | @accepted s t cell cells haction ht =>
    obtain ⟨results, hresults⟩ := hcells.program haction
    have hdecides : Decides m token value (cell :: cells) _ := .accept haction
    rw [hresults] at hdecides ⊢
    exact ⟨_, hdecides, .accepted (hs.follows ht)⟩
  | shifted haction ht hshows =>
    exact ⟨_, .shift haction, .moved ⟨hs.follows ht, hcells.shift haction hshaped, hshows⟩⟩
  | crowded hbounded | overgrown _ _ _ hbounded => exact absurd hs.capacity_eq hbounded
  | reduced haction hreduces hworks hw _ _ ih =>
    obtain ⟨hclean, hproper⟩ := hcells.reduces_clean haction hreduces
    obtain ⟨verdict, hdecides, hreaches⟩ :=
      ih (hproper _ hworks.yields) (((hs.follows .reducing).serve _).follows hw)
    exact ⟨verdict, .reduce haction hreduces (hanswers.content_ok hclean hworks) hdecides, hreaches⟩
  | broke haction hreduces hcall =>
    obtain ⟨hclean, -⟩ := hcells.reduces_clean haction hreduces
    exact ⟨_, .breaks haction hreduces (hanswers.content_error hclean hcall),
      .broke rfl hs.capacity_eq⟩

theorem drive_reaches (hanswers : actions.Answers m) (hebnf : config.ebnf = true)
    (hshaped : Shaped token value) (hs : Awaits cells s) :
    ∃ verdict, Decides m token value cells verdict ∧
      Reaches verdict ((engine actions config).drive token value s) := by
  have hdrives : Drives actions config token value s cells _ :=
    drive_course hebnf hs.failed_eq hs.proper hs.shows
  exact hdrives.reaches hanswers hshaped hs.proper hs.toRunning

theorem exposed_cons (handles : State → Bool) (x : Element State Value)
    (xs : List (Element State Value)) :
    Engine.exposed handles (flatten (x :: xs)) =
      if handles x.state then some (flatten (x :: xs))
      else Engine.exposed handles (flatten xs) := by
  have hbelow : (x.under ++ flatten xs).drop x.head.folded = flatten xs := List.drop_left
  rw [flatten_cons, Engine.exposed, hbelow]
  rfl

theorem Shows.exposed {frames : List (Frame State Value)} (h : Shows frames cells) :
    ∃ below, Shows below (handler cells) ∧
      Engine.exposed handlesError frames = if handler cells = [] then none else some below := by
  obtain ⟨xs, rfl, hxs⟩ := h
  induction hxs with
  | nil => exact ⟨[], ⟨[], rfl, .nil⟩, by rw [flatten_nil, Engine.exposed]; rfl⟩
  | @cons x cell xs cells hx hxs ih =>
    rw [exposed_cons, hx.state_eq, handler, List.dropWhile_cons]
    cases handlesError cell.state with
    | true => exact ⟨_, ⟨x :: xs, rfl, .cons hx hxs⟩, rfl⟩
    | false => exact ih

theorem Awaits.of_frames {t : Session σ} (h : Awaits cells s) (ht : Running t)
    (hframes : t.stack.frames = s.stack.frames) : Awaits cells t := by
  refine ⟨ht, h.proper, ?_⟩
  rw [hframes]
  exact h.shows

theorem Awaits.commit (h : Awaits cells s) : Awaits cells s.commit :=
  h.of_frames ⟨h.failed_eq, h.accepted_eq, h.capacity_eq⟩ rfl

theorem reposts_reaches (h : Engine.Reposts (engine actions config) token value s r)
    (hanswers : actions.Answers m) (hebnf : config.ebnf = true) (hend : config.endToken = .eof)
    (hshaped : Shaped token value) (hs : Awaits (skipping cells) s) (hsettled : s.Settled) :
    Reaches (if token = .semicolon then .moved (⟨.skipped, .value value⟩ :: skipping cells)
      else if token = .eof then .refused else .moved (skipping cells)) r := by
  have htold : Awaits (skipping cells) (s.tell (engine actions config) (.reposting token)) :=
    hs.of_frames ⟨hs.failed_eq, hs.accepted_eq, hs.capacity_eq⟩ rfl
  obtain ⟨verdict, hdecides, hreaches⟩ := drive_reaches hanswers hebnf hshaped htold
  have hbase := Engine.KeepsBase.drive (engine actions config) token value
    (s.tell (engine actions config) (.reposting token))
  have haction : action .skipping token = if token = .semicolon then .shift .skipped else .error :=
    rfl
  generalize hdrive : (engine actions config).drive token value _ = driven at hreaches hbase
  by_cases htoken : token = .semicolon
  · rw [if_pos htoken] at haction ⊢
    obtain rfl := hdecides.of_shift haction
    cases hreaches with
    | moved ht =>
      obtain rfl := h.eq_taken hdrive ht.failed_eq
      exact .moved ht.commit
  · rw [if_neg htoken] at haction ⊢
    obtain rfl := hdecides.of_error haction
    cases hreaches with
    | @refused t ht =>
      by_cases heof : token = .eof
      · rw [if_pos heof]
        obtain rfl := h.eq_endKept hdrive rfl (heof.trans hend.symm)
        have hkept : Running (t.rollback.tell (engine actions config) .endKept) :=
          ⟨ht.failed_eq, ht.accepted_eq, ht.capacity_eq⟩
        exact .refused hkept
      · rw [if_neg heof]
        obtain rfl := h.eq_discarded hdrive rfl (hend ▸ heof)
        refine .moved (hs.of_frames ⟨rfl, ht.accepted_eq, ht.capacity_eq⟩ ?_)
        rw [hsettled.frames_eq]
        exact congrArg Pile.items hbase.base_eq

inductive Unwinds (actions : Actions σ) (cells : List Cell) (s : Session σ) :
    Bool → Session σ → Prop
  | handler {c below} {t : Session σ} : handler cells = ⟨.statements, c⟩ :: below →
      Awaits (handler cells) t → t.client = s.client.notify actions (.resuming .statements) →
      Unwinds actions cells s true t
  | nowhere {t : Session σ} : handler cells = [] → Running t →
      t.client = s.client.notify actions (.unrecoverable .error) → Unwinds actions cells s false t

theorem unwind_shows (actions : Actions σ) (config : Config Terminal) (hproper : Proper cells)
    (hs : Shows s.stack.frames cells) :
    ∃ found t, (engine actions config).unwind .error s = .ok found t ∧
      Follows (engine actions config) s t ∧ (found = false → handler cells = []) ∧
      (found = true → handler cells ≠ [] ∧ Shows t.stack.frames (handler cells)) := by
  obtain ⟨found, t, hunwind, ht, -⟩ := unwind_ends actions config .error ⟨cells, hproper, hs⟩
  obtain ⟨below, hbelow, hexposed⟩ := hs.exposed
  have hfound := Engine.unwind_exposed (engine actions config) .error hunwind
  rw [show (engine actions config).table.handlesError = handlesError from rfl, hexposed] at hfound
  refine ⟨found, t, hunwind, ht, ?_, ?_⟩
  · rintro rfl
    by_contra hhandler
    rw [if_neg hhandler] at hfound
    cases hfound
  · rintro rfl
    by_cases hhandler : handler cells = []
    · rw [if_pos hhandler] at hfound
      cases hfound
    · rw [if_neg hhandler] at hfound
      obtain rfl : below = t.stack.frames := Option.some.inj hfound
      exact ⟨hhandler, hbelow⟩

theorem unwind_unwinds (actions : Actions σ) (config : Config Terminal) (hs : Awaits cells s) :
    ∃ found t, (engine actions config).unwind .error s = .ok found t ∧
      Unwinds actions cells s found t := by
  obtain ⟨found, t, hunwind, ht, hnowhere, hhandler⟩ :=
    unwind_shows actions config hs.proper hs.shows
  obtain ⟨hnone, hsome⟩ := Engine.unwind_client (engine actions config) .error hunwind
  have hrunning : Running t := hs.toRunning.follows ht
  refine ⟨found, t, hunwind, ?_⟩
  cases found with
  | false => exact .nowhere (hnowhere rfl) hrunning (hnone rfl)
  | true =>
    obtain ⟨hne, hbelow⟩ := hhandler rfl
    obtain ⟨c, rest, hcells⟩ := handler_eq_cons cells hne
    obtain ⟨head, fs, hframes, hstate, -⟩ := (hcells ▸ hbelow).cons
    have hclient := hsome rfl head fs hframes
    rw [hstate] at hclient
    exact .handler hcells ⟨hrunning, hs.proper.handler hne, hbelow⟩ hclient

theorem recovers_reaches (h : Engine.Recovers (engine actions config) token value .error s r)
    (hanswers : actions.Answers m) (hebnf : config.ebnf = true) (hend : config.endToken = .eof)
    (hshaped : Shaped token value) (hs : Awaits cells s.reopened) :
    Reaches (resume token value cells) r := by
  obtain ⟨found, u, hunwind, hunwinds⟩ := unwind_unwinds actions config hs
  rw [resume]
  cases hunwinds with
  | nowhere hhandler hu =>
    obtain rfl := h.eq_unhandled hunwind
    have hrolled : Running u.rollback := ⟨hu.failed_eq, hu.accepted_eq, hu.capacity_eq⟩
    rw [if_pos hhandler]
    exact .refused hrolled
  | handler hcells hu =>
    obtain ⟨verdict, hdecides, hreaches⟩ :=
      drive_reaches hanswers hebnf .error hu
    rw [if_neg (hcells ▸ List.cons_ne_nil _ _)]
    rw [hcells] at hdecides
    -- A handler shifts the recovery token, so that drive ends at once and never in a refusal.
    obtain rfl := hdecides.of_shift rfl
    rw [← hcells] at hreaches
    generalize hdrive : (engine actions config).drive .error _ u = driven at hreaches
    cases hreaches with
    | moved ht =>
      have hreposts := h.reposts hunwind hdrive ht.failed_eq
      exact reposts_reaches hreposts hanswers hebnf hend hshaped ht.commit (.commit _)

structure Recovering (config : Config Terminal) : Prop where
  ebnf_eq : config.ebnf = true
  recovery_eq : config.recovery = some .error
  end_eq : config.endToken = .eof

theorem settles_reaches (h : Engine.Settles (engine actions config) token value s r)
    (hanswers : actions.Answers m) (hconfig : Recovering config) (hshaped : Shaped token value)
    (hs : Awaits cells s) (hsettled : s.Settled) :
    ∃ verdict, Settles m token value cells verdict ∧ Reaches verdict r := by
  have hopened : Awaits cells s.opened :=
    hs.of_frames ⟨hs.failed_eq, hs.accepted_eq, hs.capacity_eq⟩ hsettled.frames_eq.symm
  obtain ⟨verdict, hdecides, hreaches⟩ := drive_reaches hanswers hconfig.ebnf_eq hshaped hopened
  have hbase := Engine.KeepsBase.drive (engine actions config) token value s.opened
  generalize hdrive : (engine actions config).drive token value s.opened = driven
    at hreaches hbase
  cases hreaches with
  | broke hfailure hcapacity =>
    obtain rfl := h.eq_halted hdrive
    have hsettles : Settles m token value cells (.broke _) := .decided nofun hdecides
    exact ⟨_, hsettles, .broke hfailure hcapacity⟩
  | @accepted t results ht =>
    obtain rfl := h.eq_taken hdrive ht.failed_eq
    have hcommitted : Running t.commit := ⟨ht.failed_eq, ht.accepted_eq, ht.capacity_eq⟩
    have hsettles : Settles m token value cells (.accepted _) := .decided nofun hdecides
    exact ⟨_, hsettles, .accepted hcommitted⟩
  | moved ht =>
    obtain rfl := h.eq_taken hdrive ht.failed_eq
    have hsettles : Settles m token value cells (.moved _) := .decided nofun hdecides
    exact ⟨_, hsettles, .moved ht.commit⟩
  | refused ht =>
    have hrecovers := h.recovers hdrive rfl hconfig.recovery_eq
    refine ⟨_, .resumed hdecides, ?_⟩
    refine recovers_reaches hrecovers hanswers hconfig.ebnf_eq hconfig.end_eq hshaped ?_
    refine hs.of_frames ⟨rfl, ht.accepted_eq, ht.capacity_eq⟩ ?_
    rw [hsettled.frames_eq]
    exact congrArg Pile.items hbase.base_eq

inductive Posted : Verdict → EStateM.Result (Halt Fault) (Session σ) Bool → Prop
  | answered {verdict} {t : Session σ} : t.Settled → Reaches verdict (.ok () t) →
      Posted verdict (.ok t.closed t)
  | broke {t : Session σ} {e f} : t.client.failure = some e → t.stack.capacity = none →
      Posted (.broke e) (.error (.raised f) t)

theorem post_reaches (hanswers : actions.Answers m) (hconfig : Recovering config)
    (hshaped : Shaped token value) (hs : Awaits cells s) (hsettled : s.Settled) :
    ∃ verdict, Settles m token value cells verdict ∧
      Posted verdict ((engine actions config).post token value s) := by
  have hcourse := Engine.post_course (engine actions config) token value s
  generalize (engine actions config).post token value s = r at hcourse
  cases hcourse with
  | refused hclosed =>
    rw [hs.closed_eq] at hclosed
    cases hclosed
  | answered _ hsettle =>
    obtain ⟨verdict, hsettles, hreaches⟩ :=
      settles_reaches hsettle hanswers hconfig hshaped hs hsettled
    exact ⟨verdict, hsettles, .answered hsettle.settled hreaches⟩
  | @aborted f t _ hsettle =>
    obtain ⟨verdict, hsettles, hreaches⟩ :=
      settles_reaches hsettle hanswers hconfig hshaped hs hsettled
    cases hreaches with
    | broke hfailure hcapacity =>
      have htold := (Engine.Told.refl t.client).notify (e := engine actions config) (.aborting f)
      exact ⟨_, hsettles, .broke ((told_failure htold).trans hfailure) hcapacity⟩
  | crashed _ hsettle | exhausted _ hsettle =>
    obtain ⟨verdict, hsettles, hreaches⟩ :=
      settles_reaches hsettle hanswers hconfig hshaped hs hsettled
    cases hreaches

end Posts

end ShiftReduce.Calculator
