import ShiftReduce.Proofs.Engine.Founded
import ShiftReduce.Proofs.Engine.Client

/-!
The element where recovery resumes. After a failure the stack is the one that was committed before
the post; its elements are skipped, each head with all that it has folded, up to the first one whose
head handles errors. The recovery token is driven on what is left, and on nothing if no head does.
-/

namespace ShiftReduce

theorem Stack.pop_of_kept {α : Type} {n : Nat} {s : Stack α} (hpending : s.pending = .empty)
    (hn : n ≤ s.kept.items.length) : s.pop n = .ok { s with kept := s.kept.drop n } := by
  obtain ⟨base, kept, pending, capacity⟩ := s
  obtain rfl : pending = .empty := hpending
  have hdepth : ¬ (⟨base, kept, .empty, capacity⟩ : Stack α).depth < n := by
    rw [← length_frames, frames]
    simpa using hn
  have hempty : (Pile.empty : Pile α).drop n = .empty := Pile.ext List.drop_nil
  rw [pop, if_neg hdepth]
  simp only [hempty]
  rfl

namespace Session

variable {S V σ : Type}

def shed (n : Nat) (s : Session S V σ) : Session S V σ :=
  { s with stack.kept := s.stack.kept.drop n }

theorem pending_shed (n : Nat) (s : Session S V σ) :
    (s.shed n).stack.pending = s.stack.pending := rfl

theorem shed_shed (m n : Nat) (s : Session S V σ) : (s.shed m).shed n = s.shed (m + n) := by
  have hkept : (s.stack.kept.drop m).drop n = s.stack.kept.drop (m + n) := by
    apply Pile.ext
    simp
  simp only [shed, hkept]

theorem Settled.stack_rollback {s : Session S V σ} (hs : s.Settled) :
    s.rollback.stack = s.stack := by
  obtain ⟨⟨base, kept, pending, capacity⟩, client, accepted, failed, result, stats⟩ := s
  obtain ⟨hkept, hpending⟩ := hs
  cases hkept
  cases hpending
  rfl

end Session

namespace Engine

variable {S T N P V σ : Type}

section Unwinding

variable {e : Engine S T N P V σ} {s : Session S V σ} {above below xs : List (Element S V)}
  {x : Element S V}

theorem kept_shed (hkept : s.stack.kept.items = flatten (above ++ below)) :
    (s.shed (flatten above).length).stack.kept.items = flatten below := by
  rw [flatten_append] at hkept
  rw [Session.shed, Pile.items_drop, hkept, List.drop_left]

theorem top?_of_kept (hpending : s.stack.pending = .empty)
    (hkept : s.stack.kept.items = flatten (x :: xs)) : s.stack.top? = some x.head := by
  rw [Stack.top?_eq, Stack.frames, hpending, hkept]
  rfl

theorem popElements_kept (hpending : s.stack.pending = .empty)
    (hkept : s.stack.kept.items = flatten (x :: xs)) :
    popElements 1 s = .ok () (s.shed (flatten [x]).length) := by
  have hlength : (flatten [x]).length = 1 + x.head.folded := by
    simp [Element.head]
    omega
  have hthere : 1 + x.head.folded ≤ s.stack.kept.items.length := by
    have hsplit : flatten (x :: xs) = flatten [x] ++ flatten xs := flatten_append [x] xs
    rw [← hlength, hkept, hsplit, List.length_append]
    exact Nat.le_add_right _ _
  have hrun : pop (1 + x.head.folded) s = .ok () (s.shed (flatten [x]).length) := by
    rw [pop_run, Stack.pop_of_kept hpending hthere, hlength]
    rfl
  rw [popElements, get_bind, top?_of_kept hpending hkept]
  exact bind_of_ok hrun

theorem unwindWithin_skips (token : T) (steps : Nat) (hpending : s.stack.pending = .empty)
    (hkept : s.stack.kept.items = flatten (above ++ below))
    (habove : ∀ y ∈ above, e.table.handlesError y.state = false) :
    e.unwindWithin token (above.length + steps) s =
      e.unwindWithin token steps (s.shed (flatten above).length) := by
  induction above generalizing s with
  | nil =>
    rw [List.length_nil, Nat.zero_add]
    rfl
  | cons y above ih =>
    obtain ⟨hy, habove⟩ := List.forall_mem_cons.mp habove
    have hhead : ¬ e.table.handlesError y.head.state = true := Bool.eq_false_iff.mp hy
    have hrest : (s.shed (flatten [y]).length).stack.kept.items = flatten (above ++ below) :=
      kept_shed hkept
    have hlength :
        (flatten [y]).length + (flatten above).length = (flatten (y :: above)).length := by
      rw [← List.length_append, ← flatten_append, List.singleton_append]
    rw [List.length_cons, Nat.add_right_comm, unwindWithin, get_bind, top?_of_kept hpending hkept]
    simp only [if_neg hhead]
    rw [bind_of_ok (popElements_kept hpending hkept),
      ih ((Session.pending_shed _ s).trans hpending) hrest habove, Session.shed_shed, hlength]

theorem unwind_skips (token : T) (hpending : s.stack.pending = .empty)
    (hkept : s.stack.kept.items = flatten (above ++ below))
    (habove : ∀ y ∈ above, e.table.handlesError y.state = false) :
    ∃ steps, e.unwind token s =
      e.unwindWithin token (steps + 1) (s.shed (flatten above).length) := by
  have hdepth : above.length ≤ s.stack.depth := by
    have hlength := length_le_flatten above
    rw [← Stack.length_frames, Stack.frames, hkept, flatten_append, List.length_append,
      List.length_append]
    omega
  obtain ⟨steps, hsteps⟩ := Nat.exists_eq_add_of_le hdepth
  refine ⟨steps, ?_⟩
  rw [unwind, get_bind, hsteps, Nat.add_assoc, unwindWithin_skips token _ hpending hkept habove]

theorem unwind_resumes (token : T) (hpending : s.stack.pending = .empty)
    (hkept : s.stack.kept.items = flatten (above ++ x :: below))
    (habove : ∀ y ∈ above, e.table.handlesError y.state = false)
    (hx : e.table.handlesError x.state = true) :
    e.unwind token s =
      .ok true ((s.shed (flatten above).length).tell e (.resuming x.state)) := by
  obtain ⟨steps, hunwind⟩ := unwind_skips token hpending hkept habove
  have hhead : e.table.handlesError x.head.state = true := hx
  have htop := top?_of_kept ((Session.pending_shed _ s).trans hpending) (kept_shed hkept)
  rw [hunwind, unwindWithin, get_bind, htop]
  simp only [if_pos hhead]
  rfl

theorem unwind_unhandled (token : T) (hpending : s.stack.pending = .empty)
    (hkept : s.stack.kept.items = flatten xs)
    (hxs : ∀ x ∈ xs, e.table.handlesError x.state = false) :
    e.unwind token s =
      .ok false ((s.shed (flatten xs).length).tell e (.unrecoverable token)) := by
  rw [← List.append_nil xs] at hkept
  obtain ⟨steps, hunwind⟩ := unwind_skips token hpending hkept hxs
  have htop : (s.shed (flatten xs).length).stack.top? = none := by
    rw [Stack.top?_eq, Stack.frames, kept_shed hkept, Session.shed]
    simp only [hpending]
    rfl
  rw [hunwind, unwindWithin, get_bind, htop]
  rfl

end Unwinding

section Handling

def handling (e : Engine S T N P V σ) (handles : S → Bool) : Engine S T N P V σ :=
  { e with table := { e.table with handlesError := handles } }

variable [Inhabited V] (e : Engine S T N P V σ) (handles : S → Bool) (token recovery : T)
  (value : V)

theorem handling_decideToken :
    (e.handling handles).decideToken token value = e.decideToken token value := rfl

theorem handling_driveWithin (steps : Nat) :
    (e.handling handles).driveWithin token value steps = e.driveWithin token value steps := by
  induction steps with
  | zero => rfl
  | succ steps ih => rw [driveWithin, ih, handling_decideToken, driveWithin]

theorem handling_drive : (e.handling handles).drive token value = e.drive token value := by
  rw [drive, drive]
  simp only [handling_driveWithin]
  rfl

theorem handling_regain [DecidableEq T] (found : Bool) :
    (e.handling handles).regain token value recovery found =
      e.regain token value recovery found := by
  unfold regain resume repost
  rw [handling_drive, handling_drive]
  rfl

end Handling

section Recovery

variable [Inhabited V] [DecidableEq T] {e : Engine S T N P V σ} {s t u : Session S V σ}
  {token recovery : T} {value : V} {found : Bool}

theorem post_of_unwound (hopen : s.closed = false) (hrecovery : e.config.recovery = some recovery)
    (hdrive : e.drive token value s.opened = .ok () t) (hfailed : t.failed = true)
    (hunwind : e.unwind recovery t.reopened = .ok found u) :
    e.post token value s = (e.guarded (e.regain token value recovery found) >>= fun _ =>
      return (← get).closed) u := by
  have hrecover : e.recover token value recovery t =
      (e.unwind recovery >>= e.regain token value recovery) t.reopened := rfl
  have hsettle : e.settle token value s = e.regain token value recovery found u := by
    rw [settle_eq, bind_of_ok hdrive, respond_of_failed e token value hfailed, hrecovery]
    simp only [hrecover]
    rw [bind_of_ok hunwind]
  have hguarded : e.guarded (e.settle token value) s =
      e.guarded (e.regain token value recovery found) u := by
    rw [guarded_run, guarded_run, hsettle]
  have hpost : e.post token value s =
      (if s.closed then fault .sessionClosed
        else e.guarded (e.settle token value) >>= fun _ => return (← get).closed) s := rfl
  rw [hpost, hopen, if_neg Bool.false_ne_true]
  simp only [bind, EStateM.bind, hguarded]

end Recovery

section Resuming

variable [Inhabited V] [DecidableEq T] {e : Engine S T N P V σ} {s t u : Session S V σ}
  {token recovery : T} {value : V} {xs : List (Element S V)}

variable (e) in
/-- The post of a token that failed in `t` goes on in `u` with the recovery token, on a stack that
shows `frames` as they were committed. -/
structure Resumes (token : T) (value : V) (recovery : T) (s t : Session S V σ)
    (frames : List (Frame S V)) (u : Session S V σ) : Prop where
  post_eq : e.post token value s =
    (e.guarded (e.drive recovery default >>= fun _ => e.resume token value recovery) >>= fun _ =>
      return (← get).closed) u
  kept_eq : u.stack.kept.items = frames
  pending_eq : u.stack.pending = .empty
  base_eq : u.stack.base = s.stack.base
  failed_eq : u.failed = false
  stats_eq : u.stats = { t.stats with recoveries := t.stats.recoveries + 1 }

/-- The post of a token that failed in `t` has ended with a failure, and with the stack that was
there before. -/
structure GivesUp (e : Engine S T N P V σ) (token : T) (value : V) (s t v : Session S V σ) :
    Prop where
  post_eq : e.post token value s = .ok true v
  failed_eq : v.failed = true
  stack_eq : v.stack = s.stack
  stats_eq : v.stats = { t.stats with recoveries := t.stats.recoveries + 1 }

theorem exists_first {α : Type} (p : α → Bool) (xs : List α) :
    (∀ x ∈ xs, p x = false) ∨
      ∃ above x below, xs = above ++ x :: below ∧ (∀ y ∈ above, p y = false) ∧ p x = true := by
  cases hfind : xs.find? p with
  | none => exact .inl fun x hx => Bool.eq_false_iff.mpr (List.find?_eq_none.mp hfind x hx)
  | some x =>
    obtain ⟨hx, above, below, hxs, habove⟩ := List.find?_eq_some_iff_append.mp hfind
    exact .inr ⟨above, x, below, hxs, fun y hy => by simpa using habove y hy, hx⟩

theorem post_resumes_above {above below : List (Element S V)} {x : Element S V}
    (hopen : s.closed = false) (hrecovery : e.config.recovery = some recovery)
    (hdrive : e.drive token value s.opened = .ok () t) (hfailed : t.failed = true)
    (hbase : s.stack.base.items = flatten (above ++ x :: below))
    (habove : ∀ y ∈ above, e.table.handlesError y.state = false)
    (hx : e.table.handlesError x.state = true) :
    e.Resumes token value recovery s t (flatten (x :: below))
      ((t.reopened.shed (flatten above).length).tell e (.resuming x.state)) := by
  have hsame := KeepsBase.drive e token value s.opened
  rw [hdrive] at hsame
  have hkept : t.reopened.stack.kept.items = flatten (above ++ x :: below) :=
    (congrArg Pile.items hsame.base_eq).trans hbase
  exact ⟨post_of_unwound hopen hrecovery hdrive hfailed
    (unwind_resumes recovery rfl hkept habove hx), kept_shed hkept, rfl, hsame.base_eq, rfl, rfl⟩

theorem post_gives_up (hs : s.Settled) (hopen : s.closed = false)
    (hrecovery : e.config.recovery = some recovery)
    (hdrive : e.drive token value s.opened = .ok () t) (hfailed : t.failed = true)
    (hbase : s.stack.base.items = flatten xs)
    (hxs : ∀ x ∈ xs, e.table.handlesError x.state = false) :
    e.GivesUp token value s t
      (((t.reopened.shed (flatten xs).length).tell e (.unrecoverable recovery)).rollback.fail
        true) := by
  have hsame := KeepsBase.drive e token value s.opened
  rw [hdrive] at hsame
  have hkept : t.reopened.stack.kept.items = flatten xs :=
    (congrArg Pile.items hsame.base_eq).trans hbase
  refine ⟨?_, rfl, ?_, rfl⟩
  · have hclosed : (((t.reopened.shed (flatten xs).length).tell e
        (.unrecoverable recovery)).rollback.fail true).closed = true := Bool.or_true _
    rw [post_of_unwound hopen hrecovery hdrive hfailed (unwind_unhandled recovery rfl hkept hxs)]
    refine (bind_of_ok (e.guarded_run _ _)).trans ?_
    exact congrArg (EStateM.Result.ok · _) hclosed
  · rw [← hs.stack_rollback]
    exact congrArg₂ (fun base capacity => (⟨base, base, .empty, capacity⟩ : Stack (Frame S V)))
      hsame.base_eq hsame.capacity_eq

theorem post_handling {handles : S → Bool} (hs : s.Settled) (hopen : s.closed = false)
    (hrecovery : e.config.recovery = some recovery)
    (hdrive : e.drive token value s.opened = .ok () t) (hfailed : t.failed = true)
    (hbase : s.stack.base.items = flatten xs)
    (hhandles : ∀ x ∈ xs, handles x.state = e.table.handlesError x.state) :
    (e.handling handles).post token value s = e.post token value s := by
  have hdrive' : (e.handling handles).drive token value s.opened = .ok () t := by
    rw [handling_drive, hdrive]
  rcases exists_first (fun x => e.table.handlesError x.state) xs with
    hnone | ⟨above, x, below, rfl, habove, hx⟩
  · have hnone' : ∀ x ∈ xs, (e.handling handles).table.handlesError x.state = false :=
      fun x hx => (hhandles x hx).trans (hnone x hx)
    have hpost := post_gives_up hs hopen hrecovery hdrive hfailed hbase hnone
    have hpost' := post_gives_up (e := e.handling handles) hs hopen hrecovery hdrive' hfailed hbase
      hnone'
    exact hpost'.post_eq.trans hpost.post_eq.symm
  · have habove' : ∀ y ∈ above, (e.handling handles).table.handlesError y.state = false :=
      fun y hy => (hhandles y (List.mem_append_left _ hy)).trans (habove y hy)
    have hx' : (e.handling handles).table.handlesError x.state = true :=
      (hhandles x (List.mem_append_right _ List.mem_cons_self)).trans hx
    have hpost := post_resumes_above hopen hrecovery hdrive hfailed hbase habove hx
    have hpost' := post_resumes_above (e := e.handling handles) hopen hrecovery hdrive' hfailed
      hbase habove' hx'
    have hregain := e.handling_regain handles token recovery value true
    rw [hpost.post_eq]
    refine hpost'.post_eq.trans ?_
    exact congrArg (fun body => (e.guarded body >>= fun _ => return (← get).closed) _) hregain

/-- Where a failed post resumes. The elements that were committed before the post are searched from
the top for the first one whose head handles errors; the recovery token is driven on that element
and those below it. If there is none the post fails and leaves the stack as it was. What the table
says of the states of folded frames does not matter. -/
theorem post_resumes (hs : Reached e s) (hopen : s.closed = false)
    (hrecovery : e.config.recovery = some recovery)
    (hdrive : e.drive token value s.opened = .ok () t) (hfailed : t.failed = true) :
    (∃! xs : List (Element S V), s.stack.base.items = flatten xs) ∧
      ∀ xs : List (Element S V), s.stack.base.items = flatten xs →
        (∀ above x below, xs = above ++ x :: below →
          (∀ y ∈ above, e.table.handlesError y.state = false) →
          e.table.handlesError x.state = true →
          ∃ u, e.Resumes token value recovery s t (flatten (x :: below)) u) ∧
        ((∀ x ∈ xs, e.table.handlesError x.state = false) → ∃ v, e.GivesUp token value s t v) ∧
        ∀ handles : S → Bool, (∀ x ∈ xs, handles x.state = e.table.handlesError x.state) →
          (e.handling handles).post token value s = e.post token value s := by
  obtain ⟨xs, hxs⟩ := (hs.founded_of_open hopen).grounded.exists_flatten
  refine ⟨⟨xs, hxs, fun ys hys => flatten_injective (hys.symm.trans hxs)⟩, fun xs hxs => ?_⟩
  refine ⟨?_, ?_, ?_⟩
  · rintro above x below rfl habove hx
    exact ⟨_, post_resumes_above hopen hrecovery hdrive hfailed hxs habove hx⟩
  · intro hnone
    exact ⟨_, post_gives_up hs.settled hopen hrecovery hdrive hfailed hxs hnone⟩
  · intro handles hhandles
    exact post_handling hs.settled hopen hrecovery hdrive hfailed hxs hhandles

end Resuming

section Separated

def separatedList : Tabular where
  tokens := 5
  start := 0
  endToken := 3
  errorToken := some 4
  resuming := [0, 3, 5]
  actions := [[.shift 3, .error, .error, .error, .shift 1], [.error, .error, .error, .accept],
    [.error, .error, .shift 4, .reduce 1], [.error, .error, .reduce 2, .reduce 2], [.shift 5],
    [.error, .error, .reduce 3, .reduce 3]]
  gotos := [[none, some 1, some 2]]
  rules := [(⟨"start", 0, 1, .nothing⟩, .get 0), (⟨"all", 1, 1, .action⟩, .sequence 0),
    (⟨"first", 2, 1, .seqHead⟩, .get 0), (⟨"next", 2, 3, .seqTrail2⟩, .get 0)]

def separatedEngine : Engine Nat Nat Nat Nat Datum (List (Entry Nat Nat Nat Datum)) where
  table := separatedList.table
  provider := .journal separatedList.value
  config := { Config.ofTable separatedList.table with ebnf := true }
  reach depth := 4 * depth + 4

def trailing : ListSession :=
  final (separatedEngine.perform
    (.postAll [(0, .int 4), (2, .nil), (0, .int 5), (2, .nil)])
    (final (separatedEngine.start [])))

theorem post_resumes_separated :
    ∃ t bottom u, Reached separatedEngine trailing ∧ trailing.closed = false ∧
      separatedEngine.config.recovery = some 4 ∧
      separatedEngine.drive 1 .nil trailing.opened = .ok () t ∧ t.failed = true ∧
      trailing.stack.base.items.map Frame.outline = [(4, 0), (2, 2), (5, 0), (3, 0), (0, 0)] ∧
      separatedEngine.Resumes 1 .nil 4 trailing t [bottom] u ∧ bottom.outline = (0, 0) := by
  have hstart : isOk (separatedEngine.start []) = true := by decide +kernel
  have hposted : isOk (separatedEngine.perform
      (.postAll [(0, .int 4), (2, .nil), (0, .int 5), (2, .nil)])
      (final (separatedEngine.start []))) = true := by decide +kernel
  have hopen : trailing.closed = false := by decide +kernel
  have hok : isOk (separatedEngine.drive 1 .nil trailing.opened) = true := by decide +kernel
  have hfailed : (final (separatedEngine.drive 1 .nil trailing.opened)).failed = true := by
    decide +kernel
  have houtline : trailing.stack.base.items.map Frame.outline =
      [(4, 0), (2, 2), (5, 0), (3, 0), (0, 0)] := by decide +kernel
  obtain ⟨_, hnew⟩ := eq_ok_of_isOk hstart
  obtain ⟨_, hdrive⟩ := eq_ok_of_isOk hok
  have hreached : Reached separatedEngine trailing :=
    .perform _ (.start hnew) (completes_of_isOk hposted)
  obtain ⟨-, hposts⟩ := post_resumes hreached hopen rfl hdrive hfailed
  have hshape := houtline
  simp only [List.map_eq_cons_iff, List.map_eq_nil_iff] at hshape
  obtain ⟨⟨_, comma, _⟩, _, hitems, hcomma, ⟨_, list, _⟩, _, rfl, hlist, second, _, rfl, -, first,
    _, rfl, -, ⟨_, start, _⟩, _, rfl, hbottom, rfl⟩ := hshape
  cases hcomma
  cases hlist
  cases hbottom
  obtain ⟨hresumes, -⟩ :=
    hposts [⟨4, comma, []⟩, ⟨2, list, [second, first]⟩, ⟨0, start, []⟩] hitems
  obtain ⟨u, hu⟩ := hresumes [_, _] _ [] rfl
    (by simp [separatedEngine, separatedList, Tabular.table]) rfl
  exact ⟨_, _, u, hreached, hopen, rfl, hdrive, hfailed, houtline, hu, rfl⟩

end Separated

end Engine

end ShiftReduce
