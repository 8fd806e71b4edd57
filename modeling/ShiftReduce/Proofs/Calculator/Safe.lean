import ShiftReduce.Proofs.Calculator.Drive
import ShiftReduce.Proofs.Engine.Reached

namespace ShiftReduce.Calculator

open Engine (Follows Told)

/-- Errors of an input, as opposed to those of the parser. -/
def Error.Expected : Error → Prop
  | .typeMismatch .. | .engine _ => False
  | _ => True

/-- Errors of an operation, as opposed to those of the text. -/
def Error.Computed : Error → Prop
  | .divisionByZero | .overflow | .unknownFunction _ | .arity .. => True
  | _ => False

theorem Error.Computed.expected {e : Error} (h : e.Computed) : e.Expected := by
  cases e <;> trivial

variable {σ α : Type} {actions : Actions σ} {config : Config Terminal} {I : σ → Prop}

structure Actions.Safe (I : σ → Prop) (actions : Actions σ) : Prop where
  answered : ∀ {call u v u'}, call.Clean → I u → actions.perform call u = .ok v u' → I u'
  failed : ∀ {call u e u'}, call.Clean → I u → actions.perform call u = .error e u' →
    I u' ∧ e.Expected
  watched : ∀ event u, I u → I (actions.watch event u)

theorem Actions.Safe.told (h : actions.Safe I) {c d : Client σ} (hc : I c.user)
    (hcd : Told (engine actions config) c d) : I d.user := by
  induction hcd with
  | refl => exact hc
  | @notify d notice _ ih =>
    have hwatched := h.watched (.notice notice d.span) _ ih
    cases notice <;> exact hwatched

theorem Actions.Safe.works (h : actions.Safe I) {work : Work} {u u' : σ} {c : Content}
    (hclean : work.Clean) (hu : I u) (hworks : Works actions work u c u') : I u' := by
  cases hworks with
  | done => exact hu
  | perform hcall => exact h.answered hclean hu hcall

def Typed (frames : List (Frame State Value)) : Prop := ∃ cells, Proper cells ∧ Shows frames cells

structure Usable (I : σ → Prop) (s : Session σ) : Prop where
  user : I s.client.user
  room : Stack.HasRoom s.stack.capacity 0

structure Sound (I : σ → Prop) (s : Session σ) : Prop extends Usable I s where
  failure_eq : s.client.failure = none
  typed : Typed s.stack.base.items
  result : ∀ v, s.result = some v → ∃ results, v = .program results

structure Failing (I : σ → Prop) (s : Session σ) : Prop extends Usable I s where
  failure : ∃ e, s.client.failure = some e ∧ e.Expected

namespace Sound

variable {s t : Session σ}

theorem follows (h : Sound I s) (hsafe : actions.Safe I)
    (ht : Follows (engine actions config) s t) : Sound I t where
  user := hsafe.told h.user ht.told
  room := by
    rw [ht.base.capacity_eq]
    exact h.room
  failure_eq := (told_failure ht.told).trans h.failure_eq
  typed := by
    rw [ht.base.base_eq]
    exact h.typed
  result := by
    rw [ht.result_eq]
    exact h.result

theorem tell (h : Sound I s) (hsafe : actions.Safe I) (notice : EngineNotice) :
    Sound I (s.tell (engine actions config) notice) :=
  h.follows hsafe ((Follows.refl s).tell notice)

theorem reducing {token : Terminal} {p : Production} (h : Sound I s) (hsafe : actions.Safe I) :
    Sound I (s.reducing (engine actions config) token p p.rule) :=
  h.follows hsafe .reducing

theorem serve {u : σ} (h : Sound I s) (hu : I u) : Sound I (serve u s) :=
  ⟨⟨hu, h.room⟩, h.failure_eq, h.typed, h.result⟩

theorem fail (h : Sound I s) (failed : Bool) : Sound I (s.fail failed) :=
  ⟨⟨h.user, h.room⟩, h.failure_eq, h.typed, h.result⟩

theorem tally (h : Sound I s) (f : Stats → Stats) : Sound I (s.tally f) :=
  ⟨⟨h.user, h.room⟩, h.failure_eq, h.typed, h.result⟩

theorem rollback (h : Sound I s) : Sound I s.rollback :=
  ⟨⟨h.user, h.room⟩, h.failure_eq, h.typed, h.result⟩

theorem commit (h : Sound I s) (htyped : Typed s.stack.frames) : Sound I s.commit :=
  ⟨⟨h.user, h.room⟩, h.failure_eq, htyped, h.result⟩

theorem frames_typed (h : Sound I s) (hs : s.Settled) : Typed s.stack.frames := by
  rw [hs.frames_eq]
  exact h.typed

end Sound

theorem Failing.aborted {s : Session σ} (h : Failing I s) (hsafe : actions.Safe I)
    (notice : EngineNotice) :
    Failing I ((s.tell (engine actions config) notice).rollback.fail true) := by
  have htold := (Told.refl s.client).notify (e := engine actions config) notice
  have hfailure := h.failure
  rw [← told_failure htold] at hfailure
  exact ⟨⟨hsafe.told h.user htold, h.room⟩, hfailure⟩

inductive Ends (I : σ → Prop) (Q : α → Session σ → Prop) :
    EStateM.Result (Halt Fault) (Session σ) α → Prop
  | ok {a s} : Q a s → Ends I Q (.ok a s)
  | raised {f s} : Failing I s → Ends I Q (.error (.raised f) s)

namespace Ends

variable {β : Type} {Q : α → Session σ → Prop} {R : β → Session σ → Prop} {s : Session σ}
  {r : EStateM.Result (Halt Fault) (Session σ) α}

theorem answer {a : α} (h : Ends I Q r) (hr : r = .ok a s) : Q a s := by
  subst hr
  cases h with
  | ok hQ => exact hQ

theorem halt {halt : Halt Fault} (h : Ends I Q r) (hr : r = .error halt s) :
    Ends I R (.error halt s) := by
  subst hr
  cases h with
  | raised hs => exact .raised hs

end Ends

section Drive

variable {token : Terminal} {value : Value} {s : Session σ} {cells : List Cell}

structure Driven (I : σ → Prop) (t : Session σ) : Prop extends Sound I t where
  frames_typed : t.failed = false → Typed t.stack.frames

theorem Proper.program {cell : Cell} {cells : List Cell} {t : Terminal} (h : Proper (cell :: cells))
    (haction : action cell.state t = .accept) :
    ∃ results, cell.content.head = .program results := by
  have hfits := h.fits cell List.mem_cons_self
  rw [(eq_of_accept haction).1] at hfits
  generalize cell.content = c at hfits ⊢
  cases hfits with
  | denoted _ results => exact ⟨results, rfl⟩

theorem Works.sound {p : Production} {work : Work} {c : Content} {u : σ}
    (h : Works actions work (s.reducing (engine actions config) token p p.rule).client.user c u)
    (hsafe : actions.Safe I) (hclean : work.Clean) (hs : Sound I s) :
    Sound I (serve u (s.reducing (engine actions config) token p p.rule)) :=
  (hs.reducing hsafe).serve (hsafe.works hclean (hs.reducing hsafe).user h)

theorem Drives.ends {r : EStateM.Result (Halt Fault) (Session σ) Unit}
    (h : Drives actions config token value s cells r) (hsafe : actions.Safe I)
    (hshaped : Shaped token value) (hcells : Proper cells) (hs : Sound I s) :
    Ends I (fun _ => Driven I) r := by
  induction h with
  | refused haction ht => exact .ok ⟨(hs.follows hsafe ht).fail true, nofun⟩
  | @accepted s t cell cells haction ht hshows =>
    have hsound := hs.follows hsafe ht
    have hprogram := hcells.program haction
    refine .ok ⟨⟨⟨hsound.user, hsound.room⟩, hsound.failure_eq, hsound.typed, ?_⟩, ?_⟩
    · rintro v ⟨⟩
      exact hprogram
    · exact fun _ => ⟨_, hcells, hshows⟩
  | shifted haction ht hshows =>
    exact .ok ⟨hs.follows hsafe ht, fun _ => ⟨_, hcells.shift haction hshaped, hshows⟩⟩
  | crowded _ ht => exact .ok ⟨(hs.follows hsafe ht).fail true, nofun⟩
  | reduced haction hreduces hworks hw hshows _ ih =>
    obtain ⟨hclean, hproper⟩ := hcells.reduces_clean haction hreduces
    exact ih (hproper _ hworks.yields) ((hworks.sound hsafe hclean hs).follows hsafe hw)
  | overgrown haction hreduces hworks _ hw =>
    obtain ⟨hclean, _⟩ := hcells.reduces_clean haction hreduces
    exact .ok ⟨((hworks.sound hsafe hclean hs).follows hsafe hw).fail true, nofun⟩
  | broke haction hreduces hcall =>
    obtain ⟨hclean, _⟩ := hcells.reduces_clean haction hreduces
    obtain ⟨hu, hexpected⟩ := hsafe.failed hclean (hs.reducing hsafe).user hcall
    exact .raised ⟨⟨hu, hs.room⟩, _, rfl, hexpected⟩

theorem drive_ends (hsafe : actions.Safe I) (hebnf : config.ebnf = true)
    (hshaped : Shaped token value) (hs : Sound I s) (hopen : s.failed = false)
    (htyped : Typed s.stack.frames) :
    Ends I (fun _ => Driven I) ((engine actions config).drive token value s) := by
  obtain ⟨cells, hcells, hshows⟩ := htyped
  have hdrives : Drives actions config token value s cells _ :=
    drive_course hebnf hopen hcells hshows
  exact hdrives.ends hsafe hshaped hcells hs

end Drive

section Unwind

theorem unwindWithin_ends (actions : Actions σ) (config : Config Terminal) (token : Terminal)
    {cells : List Cell} (hproper : cells ≠ [] → Proper cells) {s : Session σ} {steps : Nat}
    (hs : Shows s.stack.frames cells) (hsteps : cells.length < steps) :
    ∃ found t, (engine actions config).unwindWithin token steps s = .ok found t ∧
      Follows (engine actions config) s t ∧ (found = true → Typed t.stack.frames) := by
  induction cells generalizing s steps with
  | nil =>
    obtain ⟨steps, rfl⟩ := Nat.exists_eq_add_one.mpr hsteps
    obtain ⟨_, hframes, ⟨⟩⟩ := hs
    have htop : s.stack.top? = none := by
      rw [Stack.top?_eq, hframes]
      rfl
    refine ⟨false, _, ?_, (Follows.refl s).tell (.unrecoverable token), nofun⟩
    rw [Engine.unwindWithin, Engine.get_bind, htop]
    rfl
  | cons cell cells ih =>
    obtain ⟨steps, rfl⟩ := Nat.exists_eq_add_one.mpr (Nat.zero_lt_of_lt hsteps)
    obtain ⟨xs, hframes, hxs⟩ := hs
    obtain ⟨x, ys, hx, hys, rfl⟩ := List.forall₂_cons_right_iff.mp hxs
    have hrun : (engine actions config).unwindWithin token (steps + 1) s =
        (if (engine actions config).table.handlesError x.state then
          .ok true (s.tell (engine actions config) (.resuming x.state))
        else (Engine.popElements 1 >>= fun _ =>
          (engine actions config).unwindWithin token steps) s) := by
      rw [Engine.unwindWithin, Engine.get_bind, Engine.top?_of_cons hframes]
      exact apply_ite (fun run : Run State Value (Client σ) Bool => run s) _ _ _
    rw [hrun]
    split
    · refine ⟨true, _, rfl, (Follows.refl s).tell _, fun _ => ?_⟩
      exact ⟨_, hproper (List.cons_ne_nil _ _), _, hframes, hxs⟩
    · obtain ⟨stack, hstack, hpop⟩ := Engine.popElements_flatten [x] ys hframes
      -- What is left is proper unless it is nothing at all.
      have hbelow : cells ≠ [] → Proper cells := by
        intro hne
        obtain ⟨cell', cells', rfl⟩ := List.exists_cons_of_ne_nil hne
        have happend : Proper ([cell] ++ cell' :: cells') := hproper (List.cons_ne_nil _ _)
        exact happend.of_append
      obtain ⟨found, t, hunwind, ht, hfound⟩ := ih hbelow (s := { s with stack })
        ⟨ys, hstack.frames_eq, hys⟩ (Nat.lt_of_succ_lt_succ hsteps)
      exact ⟨found, t, (Engine.bind_of_ok hpop).trans hunwind,
        ((Follows.refl s).became hstack).trans ht, hfound⟩

theorem unwind_ends (actions : Actions σ) (config : Config Terminal) (token : Terminal)
    {s : Session σ} (hs : Typed s.stack.frames) :
    ∃ found t, (engine actions config).unwind token s = .ok found t ∧
      Follows (engine actions config) s t ∧ (found = true → Typed t.stack.frames) := by
  obtain ⟨cells, hcells, hshows⟩ := hs
  have hlength := hshows.length_le
  rw [Stack.length_frames] at hlength
  exact unwindWithin_ends actions config token (fun _ => hcells) hshows (Nat.lt_succ_of_le hlength)

end Unwind

section Posts

variable {token recovery : Terminal} {value : Value} {s : Session σ}

/-- Options under which a session can go wrong only as its input does. -/
structure Sane (config : Config Terminal) : Prop where
  ebnf : config.ebnf = true
  recovery : ∀ t, config.recovery = some t → t = .error

theorem reposts_ends {r : EStateM.Result (Halt Fault) (Session σ) Unit}
    (h : Engine.Reposts (engine actions config) token value s r) (hsafe : actions.Safe I)
    (hconfig : Sane config) (hshaped : Shaped token value) (hs : Sound I s)
    (hopen : s.failed = false) (hsettled : s.Settled) : Ends I (fun _ => Sound I) r := by
  have htold : Sound I (s.tell (engine actions config) (.reposting token)) := hs.tell hsafe _
  have hends := drive_ends hsafe hconfig.ebnf hshaped htold hopen
    (htold.frames_typed (hsettled.of_stack rfl))
  cases h with
  | halted hdrive => exact hends.halt hdrive
  | taken hdrive hfailed =>
    have ht := hends.answer hdrive
    exact .ok (ht.commit (ht.frames_typed hfailed))
  | endKept hdrive =>
    have ht := hends.answer hdrive
    exact .ok (ht.rollback.tell hsafe _)
  | discarded hdrive =>
    have ht := hends.answer hdrive
    exact .ok (((ht.rollback.tell hsafe _).tally _).fail false)

theorem recovers_ends {r : EStateM.Result (Halt Fault) (Session σ) Unit}
    (h : Engine.Recovers (engine actions config) token value .error s r) (hsafe : actions.Safe I)
    (hconfig : Sane config) (hshaped : Shaped token value) (hs : Sound I s) :
    Ends I (fun _ => Sound I) r := by
  have hreopened : Sound I s.reopened := ((hs.tally _).rollback).fail false
  obtain ⟨found, u, hrun, hu, hfound⟩ :=
    unwind_ends actions config .error (hreopened.frames_typed ⟨rfl, rfl⟩)
  have hsound := hreopened.follows hsafe hu
  -- The recovery token carries nothing, so it is driven like a token of the input.
  have hdriven : found = true →
      Ends I (fun _ => Driven I) ((engine actions config).drive .error default u) := fun h =>
    drive_ends hsafe hconfig.ebnf .error hsound hu.failed_eq (hfound h)
  cases h with
  | unwindHalted hunwind =>
    rw [hrun] at hunwind
    cases hunwind
  | unhandled hunwind =>
    rw [hrun] at hunwind
    cases hunwind
    exact .ok (hsound.rollback.fail true)
  | halted hunwind hdrive =>
    rw [hrun] at hunwind
    cases hunwind
    exact (hdriven rfl).halt hdrive
  | refused hunwind hdrive =>
    rw [hrun] at hunwind
    cases hunwind
    have ht := (hdriven rfl).answer hdrive
    exact .ok (ht.tell hsafe _).rollback
  | resumed hunwind hdrive hfailed hrepost =>
    rw [hrun] at hunwind
    cases hunwind
    have ht := (hdriven rfl).answer hdrive
    exact reposts_ends hrepost hsafe hconfig hshaped (ht.commit (ht.frames_typed hfailed))
      hfailed (.commit _)

theorem settles_ends {r : EStateM.Result (Halt Fault) (Session σ) Unit}
    (h : Engine.Settles (engine actions config) token value s r) (hsafe : actions.Safe I)
    (hconfig : Sane config) (hshaped : Shaped token value) (hs : Sound I s)
    (hopen : s.failed = false) : Ends I (fun _ => Sound I) r := by
  have hopened : Sound I s.opened := (hs.tally _).rollback
  have hends := drive_ends hsafe hconfig.ebnf hshaped hopened hopen
    (hopened.frames_typed (.rollback _))
  cases h with
  | halted hdrive => exact hends.halt hdrive
  | taken hdrive hfailed =>
    have ht := hends.answer hdrive
    exact .ok (ht.commit (ht.frames_typed hfailed))
  | failed hdrive => exact .ok (hends.answer hdrive).rollback
  | recovered hdrive _ hsome hrecover =>
    obtain rfl := hconfig.recovery _ hsome
    exact recovers_ends hrecover hsafe hconfig hshaped (hends.answer hdrive).toSound

theorem post_ends (hsafe : actions.Safe I) (hconfig : Sane config) (hshaped : Shaped token value)
    (hs : Sound I s) (hopen : s.closed = false) :
    Ends I (fun closed t => Sound I t ∧ t.closed = closed)
      ((engine actions config).post token value s) := by
  have hfailed : s.failed = false := (Bool.or_eq_false_iff.mp hopen).2
  have hcourse := Engine.post_course (engine actions config) token value s
  generalize (engine actions config).post token value s = r at hcourse
  cases hcourse with
  | refused hclosed =>
    rw [hopen] at hclosed
    cases hclosed
  | answered _ hsettle =>
    cases settles_ends hsettle hsafe hconfig hshaped hs hfailed with
    | ok ht => exact .ok ⟨ht, rfl⟩
  | aborted _ hsettle =>
    cases settles_ends hsettle hsafe hconfig hshaped hs hfailed with
    | raised hfailing => exact .raised (hfailing.aborted hsafe _)
  | crashed _ hsettle | exhausted _ hsettle =>
    cases settles_ends hsettle hsafe hconfig hshaped hs hfailed

end Posts

end ShiftReduce.Calculator
