import ShiftReduce.Proofs.Engine.Atomic
import ShiftReduce.Proofs.Engine.Bounded

namespace ShiftReduce.Engine

variable {S T N P V σ : Type} [Inhabited V] {e : Engine S T N P V σ}

section Visits

variable (e)

inductive Continues (token : T) (value : V) (s : Session S V σ) : Session S V σ → Prop
  | refl : Continues token value s s
  | decided {t u} : Continues token value s t → e.decideToken token value t = .ok false u →
      Continues token value s u

/-- The sessions that a drive passes: those between decisions, the one after the last decision, and
within a reduction those between one write to the stack and the next, whatever became of the client
and of the value. -/
inductive Passes (token : T) (value : V) (s : Session S V σ) : Session S V σ → Prop
  | between {t} : Continues e token value s t → Passes token value s t
  | settled {t} : Continues e token value s t →
      Passes token value s (final (e.decideToken token value t))
  | written {t head below production rule result pre} (client : σ) :
      Continues e token value s t → t.stack.frames = head :: below →
      e.table.action head.state token = .reduce production →
      e.table.rule? production = some rule → Admits rule t → pre <+: e.writes rule result →
      Passes token value s (final (inTurn pre { t with client }))

/-- The drives that posting a token sets off, and where they begin: that of the token, and after a
failure that of the recovery token and that of the token once more. -/
inductive Undertakes (token : T) (value : V) (s : Session S V σ) :
    T → V → Session S V σ → Prop
  | posted : Undertakes token value s token value s.opened
  | resumed {recovery t u} : e.config.recovery = some recovery →
      e.drive token value s.opened = .ok () t → t.failed = true →
      e.unwind recovery t.reopened = .ok true u → Undertakes token value s recovery default u
  | reposted {recovery u w} : Undertakes token value s recovery default u →
      e.config.recovery = some recovery → e.drive recovery default u = .ok () w →
      w.failed = false → Undertakes token value s token value (w.commit.tell e (.reposting token))

end Visits

section Unwinding

variable {s : Session S V σ}

omit [Inhabited V] in
theorem unwindWithin_bounded (token : T) (steps : Nat) (hs : Bounded s)
    (hsteps : s.stack.depth < steps) :
    ∃ found t, e.unwindWithin token steps s = .ok found t ∧ Bounded t := by
  induction steps generalizing s with
  | zero => omega
  | succ steps ih =>
    rw [unwindWithin, get_bind]
    cases hframes : s.stack.frames with
    | nil =>
      rw [Stack.top?_eq, hframes]
      exact ⟨false, _, rfl, hs.of_stack rfl⟩
    | cons head below =>
      have hgrounded := hs.grounded
      rw [hframes] at hgrounded
      rw [top?_of_cons hframes]
      by_cases hhead : e.table.handlesError head.state = true
      · simp only [if_pos hhead]
        exact ⟨true, _, rfl, hs.of_stack rfl⟩
      · simp only [if_neg hhead]
        obtain ⟨stack, hstack, hpop⟩ := popElements_succ 0 hframes hgrounded.1
        have ht := Bounded.popElements 1 s hs
        rw [hpop] at ht
        rw [bind_of_ok hpop]
        refine ih ht ?_
        have hlength := congrArg List.length hstack.frames_eq
        have hdepth := congrArg List.length hframes
        rw [Stack.length_frames, List.length_drop] at hlength
        rw [Stack.length_frames, List.length_cons] at hdepth
        show stack.depth < steps
        omega

omit [Inhabited V] in
theorem unwind_bounded (token : T) (hs : Bounded s) :
    ∃ found t, e.unwind token s = .ok found t ∧ Bounded t :=
  unwindWithin_bounded token _ hs (Nat.lt_succ_self _)

end Unwinding

structure Founded (e : Engine S T N P V σ) (s : Session S V σ) : Prop where
  capacity_eq : s.stack.capacity = e.config.capacity
  grounded : Grounded s.stack.base.items
  nonempty : s.stack.base.items ≠ []
  within : ∀ n, e.config.capacity = some n → s.stack.base.items.length ≤ n

namespace Founded

variable {s t : Session S V σ} {token recovery : T} {value : V}

omit [Inhabited V] in
theorem of_sameBase (h : Founded e s) (hbase : SameBase s t) : Founded e t := by
  constructor
  · rw [hbase.capacity_eq, h.capacity_eq]
  · rw [hbase.base_eq]
    exact h.grounded
  · rw [hbase.base_eq]
    exact h.nonempty
  · rw [hbase.base_eq]
    exact h.within

omit [Inhabited V] in
theorem rollback (h : Founded e s) : Founded e s.rollback := h.of_sameBase ⟨rfl, rfl⟩

omit [Inhabited V] in
theorem bounded (h : Founded e s) (hs : s.stack.frames = s.stack.base.items) : Bounded s := by
  constructor
  · rw [hs]
    exact h.grounded
  · intro n hn
    rw [h.capacity_eq] at hn
    rw [← Stack.length_frames, hs]
    exact h.within n hn

omit [Inhabited V] in
theorem opened (h : Founded e s) : Founded e s.opened := h.of_sameBase ⟨rfl, rfl⟩

omit [Inhabited V] in
theorem reopened (h : Founded e s) : Founded e s.reopened := h.of_sameBase ⟨rfl, rfl⟩

omit [Inhabited V] in
theorem commit (h : Founded e s) (hs : Bounded s) (hne : s.stack.frames ≠ []) :
    Founded e s.commit where
  capacity_eq := h.capacity_eq
  grounded := hs.grounded
  nonempty := hne
  within := by
    intro n hn
    rw [← h.capacity_eq] at hn
    have hwithin := hs.within n hn
    rw [← Stack.length_frames] at hwithin
    exact hwithin

theorem of_drive (h : Founded e s) (hs : Bounded s) (hdrive : e.drive token value s = .ok () t)
    (hopen : t.failed = false) : Founded e t.commit := by
  have hbase := KeepsBase.drive e token value s
  have hbounded := drive_bounded (e := e) token value s hs
  rw [hdrive] at hbase hbounded
  exact (h.of_sameBase hbase).commit hbounded (drive_nonempty hdrive hopen)

theorem drive (h : Founded e s) (token : T) (value : V) :
    Founded e (final (e.drive token value s)) :=
  h.of_sameBase (KeepsBase.drive e token value s)

theorem of_failing (h : Founded e s) (hdrive : e.drive token value s.opened = .ok () t) :
    Founded e t.reopened := by
  have ht := h.opened.drive token value
  rw [hdrive] at ht
  exact reopened ht

omit [Inhabited V] in
theorem unwind (h : Founded e s) (token : T) : Founded e (final (e.unwind token s)) :=
  h.of_sameBase (KeepsBase.unwind e token s)

end Founded

section Courses

variable {s : Session S V σ} {token recovery : T} {value : V}
  {r : EStateM.Result (Halt Fault) (Session S V σ) Unit}

theorem Reposts.founded (h : Reposts e token value s r) (hs : Founded e s) (hbounded : Bounded s) :
    Founded e (final r) := by
  have htold : Founded e (s.tell e (.reposting token)) := hs.of_sameBase (.of_stack rfl)
  have hdriven := htold.drive token value
  cases h with
  | halted hdrive =>
    rw [hdrive] at hdriven
    exact hdriven
  | taken hdrive hopen => exact htold.of_drive (hbounded.of_stack rfl) hdrive hopen
  | endKept hdrive =>
    rw [hdrive] at hdriven
    exact hdriven.of_sameBase ⟨rfl, rfl⟩
  | discarded hdrive =>
    rw [hdrive] at hdriven
    exact hdriven.of_sameBase ⟨rfl, rfl⟩

theorem Recovers.founded (h : Recovers e token value recovery s r) (hs : Founded e s) :
    Founded e (final r) := by
  have hunwound := hs.reopened.unwind recovery
  obtain ⟨found, u, hunwind, hu⟩ := unwind_bounded (e := e) recovery (hs.reopened.bounded rfl)
  rw [hunwind] at hunwound
  have hdriven := Founded.drive hunwound recovery default
  cases h with
  | unwindHalted hunwind' => cases hunwind.symm.trans hunwind'
  | unhandled hunwind' =>
    cases hunwind.symm.trans hunwind'
    exact hunwound.of_sameBase ⟨rfl, rfl⟩
  | halted hunwind' hdrive =>
    cases hunwind.symm.trans hunwind'
    rw [final, hdrive] at hdriven
    exact hdriven
  | refused hunwind' hdrive =>
    cases hunwind.symm.trans hunwind'
    rw [final, hdrive] at hdriven
    exact hdriven.of_sameBase ⟨rfl, rfl⟩
  | resumed hunwind' hdrive hopen hrepost =>
    cases hunwind.symm.trans hunwind'
    have ht := Founded.of_drive hunwound hu hdrive hopen
    exact hrepost.founded ht (ht.bounded rfl)

theorem Settles.founded (h : Settles e token value s r) (hs : Founded e s) :
    Founded e (final r) := by
  have hdriven := hs.opened.drive token value
  cases h with
  | halted hdrive =>
    rw [hdrive] at hdriven
    exact hdriven
  | taken hdrive hopen => exact hs.opened.of_drive (hs.opened.bounded rfl) hdrive hopen
  | failed hdrive =>
    rw [hdrive] at hdriven
    exact hdriven.rollback
  | recovered hdrive hfailed hrecovery hrecovers =>
    rw [hdrive] at hdriven
    exact hrecovers.founded hdriven

end Courses

section Between

variable {s t : Session S V σ} {token : T} {value : V}

theorem Continues.bounded (h : Continues e token value s t) (hs : Bounded s) : Bounded t := by
  induction h with
  | refl => exact hs
  | @decided t u ht hdecide ih =>
    have hu := decideToken_bounded (e := e) token value t ih
    rwa [hdecide] at hu

theorem Passes.bounded (h : Passes e token value s t) (hs : Bounded s) : Bounded t := by
  cases h with
  | between ht => exact ht.bounded hs
  | settled ht => exact decideToken_bounded token value _ (ht.bounded hs)
  | @written t _ _ _ _ _ _ client ht hframes haction hrule hadmits hpre =>
    have ht : Bounded { t with client } := (ht.bounded hs).of_stack rfl
    have hadmits : Admits _ { t with client } := hadmits.of_stack rfl
    exact hadmits.writes_bounded ht hpre

theorem Undertakes.founded {token' : T} {value' : V} {u : Session S V σ}
    (h : Undertakes e token value s token' value' u) (hs : Founded e s) :
    Founded e u ∧ Bounded u := by
  induction h with
  | posted => exact ⟨hs.opened, hs.opened.bounded rfl⟩
  | @resumed recovery t u hrecovery hdrive hfailed hunwind =>
    have ht := hs.of_failing hdrive
    have hu := ht.unwind recovery
    obtain ⟨found, v, hunwind', hv⟩ := unwind_bounded (e := e) recovery (ht.bounded rfl)
    rw [hunwind] at hu
    cases hunwind.symm.trans hunwind'
    exact ⟨hu, hv⟩
  | @reposted recovery u w hu hrecovery hdrive hopen ih =>
    have hw := ih.1.of_drive ih.2 hdrive hopen
    exact ⟨hw.of_sameBase (.of_stack rfl), (hw.bounded rfl).of_stack rfl⟩

end Between

section Completion

variable {α β : Type} {s t : Session S V σ} {x : Run S V σ α}

omit [Inhabited V] in
theorem completes_of_bind {f : α → Run S V σ β} (h : Completes ((x >>= f) s) t) :
    (∃ a u, x s = .ok a u ∧ Completes (f a u) t) ∨ Completes (x s) t := by
  cases hx : x s with
  | ok a u =>
    rw [bind_of_ok hx] at h
    exact .inl ⟨a, u, rfl, h⟩
  | error halt u =>
    rw [bind_of_error hx] at h
    cases h
    exact .inr .faulted

omit [Inhabited V] in
theorem completes_of_map {f : α → β} (h : Completes ((f <$> x) s) t) : Completes (x s) t := by
  rw [map_eq_pure_bind] at h
  rcases completes_of_bind h with ⟨a, u, hx, h⟩ | hx
  · cases h
    rw [hx]
    exact .answered
  · exact hx

end Completion

section Operations

variable [DecidableEq T] {s t : Session S V σ} {token : T} {value : V}

theorem post_founded (token : T) (value : V) : Sustains (Founded e) (e.post token value) := by
  intro s hs
  have hcourse := post_course e token value s
  revert hcourse
  generalize e.post token value s = r
  intro hcourse
  cases hcourse with
  | refused => exact hs
  | answered hopen hsettle => exact hsettle.founded hs
  | aborted hopen hsettle => exact (hsettle.founded hs).of_sameBase ⟨rfl, rfl⟩
  | crashed hopen hsettle => exact hsettle.founded hs
  | exhausted hopen hsettle => exact hsettle.founded hs

theorem postAll_founded (tokens : List (T × V)) : Sustains (Founded e) (e.postAll tokens) := by
  induction tokens with
  | nil => exact .answer false
  | cons token rest ih =>
    refine (post_founded token.1 token.2).bind fun closed => ?_
    cases closed with
    | true => exact .answer true
    | false => exact ih

omit [DecidableEq T] in
theorem reset_founded (hcapacity : ∀ n, e.config.capacity = some n → 1 ≤ n)
    (hs : s.stack.capacity = e.config.capacity) (h : Completes (e.reset s) t) : Founded e t := by
  by_cases hstate : e.table.hasState e.table.start = true
  · have hroom : Stack.HasRoom s.stack.capacity 0 := by rwa [hs]
    obtain ⟨u, hreset, hfresh, hucapacity, -⟩ := reset_fresh (e := e) s hstate hroom
    rw [hreset] at h
    cases h
    refine ⟨hucapacity.trans hs, ?_, ?_, ?_⟩ <;> rw [hfresh.base_eq]
    · exact ⟨Nat.zero_le _, trivial⟩
    · exact List.cons_ne_nil _ _
    · exact hcapacity
  · rw [reset_eq, bind_of_error (e.push_crash _ _ hstate)] at h
    cases h

omit [Inhabited V] [DecidableEq T] in
theorem take_founded : Sustains (Founded e) (take : Run S V σ (Option V)) := by
  intro s hs
  rw [take_run]
  split
  · exact hs.of_sameBase (.of_stack rfl)
  · exact hs

theorem perform_founded (hcapacity : ∀ n, e.config.capacity = some n → 1 ≤ n) (op : Op T V)
    (hs : Founded e s) (h : Completes (e.perform op s) t) : Founded e t := by
  cases op with
  | post token value =>
    rw [← (completes_of_map h).final_eq]
    exact post_founded token value s hs
  | postAll tokens =>
    rw [← (completes_of_map h).final_eq]
    exact postAll_founded tokens s hs
  | parse tokens =>
    have hposts : Sustains (Founded e) (e.postAll tokens >>= fun _ => take) :=
      (postAll_founded tokens).bind fun _ => take_founded
    rcases completes_of_bind (completes_of_map h) with ⟨u, v, hreset, hrest⟩ | hreset
    · rw [← hrest.final_eq]
      exact hposts v (reset_founded hcapacity hs.capacity_eq (hreset ▸ .answered))
    · exact reset_founded hcapacity hs.capacity_eq hreset
  | reset =>
    rcases completes_of_bind h with ⟨u, v, hreset, hrest⟩ | hreset
    · cases hrest
      exact reset_founded hcapacity hs.capacity_eq (hreset ▸ .answered)
    · exact reset_founded hcapacity hs.capacity_eq hreset
  | accepted =>
    cases h
    exact hs
  | take =>
    rw [← (completes_of_map h).final_eq]
    exact take_founded s hs

theorem Reached.founded (hcapacity : ∀ n, e.config.capacity = some n → 1 ≤ n) (hs : Reached e s) :
    Founded e s := by
  induction hs with
  | @start client s hstart =>
    exact reset_founded (s := e.blank client) hcapacity rfl (completes_of_start hstart)
  | perform op hs ht ih => exact perform_founded hcapacity op ih ht
  | attend client hs ih => exact ih.of_sameBase (.of_stack rfl)

/-- Between operations nothing is pending, the stack is neither empty nor deeper than its capacity,
and no frame has folded more than lies below it. The last holds all along the drives of a post, so
that the unwinding of a recovery comes to its end. -/
theorem reached_bounded (hcapacity : ∀ n, e.config.capacity = some n → 1 ≤ n) (hs : Reached e s) :
    s.stack.pendingDepth = 0 ∧ 1 ≤ s.stack.depth ∧
      (∀ n, e.config.capacity = some n → s.stack.depth ≤ n) ∧
      (∀ i frame, s.stack.nth? i = some frame → frame.folded ≤ i) ∧
      ∀ token value, s.closed = false →
        (∀ token' value' u t, Undertakes e token value s token' value' u →
          Passes e token' value' u t → ∀ i frame, t.stack.nth? i = some frame → frame.folded ≤ i) ∧
        ∀ recovery t, e.config.recovery = some recovery → e.drive token value s.opened = .ok () t →
          t.failed = true → ∃ found u, e.unwind recovery t.reopened = .ok found u := by
  have hfounded := hs.founded hcapacity
  have hframes := hs.settled.frames_eq
  have hbounded := hfounded.bounded hframes
  refine ⟨hs.settled.pendingDepth_eq, ?_, ?_, grounded_iff.mp hbounded.grounded, ?_⟩
  · rw [← Stack.length_frames, hframes]
    exact List.length_pos_iff.mpr hfounded.nonempty
  · rw [← hfounded.capacity_eq]
    exact hbounded.within
  · intro token value _
    constructor
    · intro token' value' u t hu ht
      exact grounded_iff.mp (ht.bounded (hu.founded hfounded).2).grounded
    · intro recovery t _ hdrive _
      have ht := (hfounded.of_failing hdrive).bounded rfl
      obtain ⟨found, u, hunwind, -⟩ := unwind_bounded (e := e) recovery ht
      exact ⟨found, u, hunwind⟩

end Operations

section Open

variable {s t : Session S V σ}

structure Crowded (s : Session S V σ) : Prop where
  capacity_eq : s.stack.capacity = some 0
  failed_eq : s.failed = true

namespace Crowded

omit [Inhabited V] in
theorem closed (hs : Crowded s) : s.closed = true := by
  rw [Session.closed, hs.failed_eq, Bool.or_true]

theorem reset (hs : s.stack.capacity = some 0) (h : Completes (e.reset s) t) : Crowded t := by
  by_cases hstate : e.table.hasState e.table.start = true
  · have hpush : (cleared s).stack.push (⟨e.table.start, default, 0⟩ : Frame S V) =
        .error (.overflow 0) := Stack.push_of_full hs (Nat.zero_le _)
    rw [reset_run s hstate, hpush] at h
    cases h
    exact ⟨hs, rfl⟩
  · rw [reset_eq, bind_of_error (e.push_crash _ _ hstate)] at h
    cases h

variable [DecidableEq T]

theorem post (token : T) (value : V) : Sustains Crowded (e.post token value) := by
  intro s hs
  rw [post_of_closed hs.closed]
  exact hs

theorem postAll (tokens : List (T × V)) : Sustains Crowded (e.postAll tokens) := by
  induction tokens with
  | nil => exact .answer false
  | cons token rest ih =>
    refine (post token.1 token.2).bind fun closed => ?_
    cases closed with
    | true => exact .answer true
    | false => exact ih

omit [Inhabited V] [DecidableEq T] in
theorem take : Sustains Crowded (Engine.take : Run S V σ (Option V)) := by
  intro s hs
  rw [take_run]
  cases accepted? s <;> exact ⟨hs.capacity_eq, hs.failed_eq⟩

theorem perform (op : Op T V) (hs : Crowded s) (h : Completes (e.perform op s) t) : Crowded t := by
  cases op with
  | post token value =>
    rw [← (completes_of_map h).final_eq]
    exact post token value s hs
  | postAll tokens =>
    rw [← (completes_of_map h).final_eq]
    exact postAll tokens s hs
  | parse tokens =>
    have hposts : Sustains Crowded (e.postAll tokens >>= fun _ => Engine.take) :=
      (postAll tokens).bind fun _ => take
    rcases completes_of_bind (completes_of_map h) with ⟨u, v, hreset, hrest⟩ | hreset
    · rw [← hrest.final_eq]
      exact hposts v (reset (e := e) hs.capacity_eq (hreset ▸ .answered))
    · exact reset hs.capacity_eq hreset
  | reset =>
    rcases completes_of_bind h with ⟨u, v, hreset, hrest⟩ | hreset
    · cases hrest
      exact reset (e := e) hs.capacity_eq (hreset ▸ .answered)
    · exact reset hs.capacity_eq hreset
  | accepted =>
    cases h
    exact hs
  | take =>
    rw [← (completes_of_map h).final_eq]
    exact take s hs

end Crowded

variable [DecidableEq T]

theorem Reached.crowded (hcapacity : e.config.capacity = some 0) (hs : Reached e s) :
    Crowded s := by
  induction hs with
  | @start client s hstart =>
    exact Crowded.reset (e := e) (s := e.blank client) hcapacity (completes_of_start hstart)
  | perform op hs ht ih => exact ih.perform op ht
  | attend client hs ih => exact ⟨ih.capacity_eq, ih.failed_eq⟩

theorem Reached.founded_of_open (hs : Reached e s) (hopen : s.closed = false) : Founded e s := by
  refine hs.founded fun n hn => Nat.pos_of_ne_zero fun hzero => ?_
  rw [hzero] at hn
  cases hopen.symm.trans (hs.crowded hn).closed

end Open

section Full

open Calculator (defaultConfig)

def narrow : Engine Calculator.State Calculator.Terminal Calculator.Nonterminal
    Calculator.Production Calculator.Value (Calculator.Client Unit) :=
  Calculator.engine Calculator.Evaluator.actions { defaultConfig with capacity := some 5 }

def full : Calculator.Session Unit :=
  final (narrow.perform
    (.postAll [(.int, .number 1), (.semicolon, .nothing), (.int, .number 2), (.plus, .nothing)])
    (final (narrow.start (.new ()))))

theorem reached_bounded_full :
    (∀ n, narrow.config.capacity = some n → 1 ≤ n) ∧ Reached narrow full ∧
      full.stack.frames.map Frame.folded = [0, 0, 1, 0, 0] ∧ full.closed = false ∧
      full.stack.pendingDepth = 0 ∧ full.stack.depth ≤ 5 ∧
      (∀ i frame, full.stack.nth? i = some frame → frame.folded ≤ i) ∧
      ∃ t, narrow.drive .int (.number 3) full.opened = .ok () t ∧ t.failed = true ∧
        (∀ u, Passes narrow .int (.number 3) full.opened u →
          ∀ i frame, u.stack.nth? i = some frame → frame.folded ≤ i) ∧
        ∃ found u, narrow.unwind .error t.reopened = .ok found u := by
  have hcapacity : ∀ n, narrow.config.capacity = some n → 1 ≤ n := by
    intro n hn
    obtain rfl : 5 = n := Option.some.inj hn
    decide
  have hstart : isOk (narrow.start (.new ())) = true := by decide +kernel
  have hposted : isOk (narrow.perform
      (.postAll [(.int, .number 1), (.semicolon, .nothing), (.int, .number 2), (.plus, .nothing)])
      (final (narrow.start (.new ())))) = true := by decide +kernel
  have hopen : full.closed = false := by decide +kernel
  have hok : isOk (narrow.drive .int (.number 3) full.opened) = true := by decide +kernel
  have hfailed : (final (narrow.drive .int (.number 3) full.opened)).failed = true := by
    decide +kernel
  obtain ⟨_, hnew⟩ := eq_ok_of_isOk hstart
  obtain ⟨_, hdrive⟩ := eq_ok_of_isOk hok
  have hreached : Reached narrow full := .perform _ (.start hnew) (completes_of_isOk hposted)
  obtain ⟨hpending, _, hdepth, hfolded, hposts⟩ := reached_bounded hcapacity hreached
  obtain ⟨hpasses, hunwinds⟩ := hposts .int (.number 3) hopen
  exact ⟨hcapacity, hreached, by decide +kernel, hopen, hpending, hdepth 5 rfl, hfolded, _, hdrive,
    hfailed, fun u => hpasses _ _ _ u .posted, hunwinds .error _ rfl hdrive hfailed⟩

end Full

end ShiftReduce.Engine
