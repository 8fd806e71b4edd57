import ShiftReduce.Proofs.Engine.Unwind
import ShiftReduce.Proofs.Frame.Element

namespace ShiftReduce

namespace Engine

variable {S T N P V σ : Type}

inductive Told (e : Engine S T N P V σ) : σ → σ → Prop
  | refl (c) : Told e c c
  | notify {c d} (notice : Notice S T P V) : Told e c d → Told e c (e.provider.notify notice d)

theorem Told.trans {e : Engine S T N P V σ} {c d f : σ} (h : Told e c d) (k : Told e d f) :
    Told e c f := by
  induction k with
  | refl => exact h
  | notify notice k ih => exact ih.notify notice

structure Follows (e : Engine S T N P V σ) (s t : Session S V σ) : Prop where
  base : SameBase s t
  told : Told e s.client t.client
  accepted_eq : t.accepted = s.accepted
  failed_eq : t.failed = s.failed
  result_eq : t.result = s.result
  discarded_eq : t.stats.discarded = s.stats.discarded

namespace Follows

variable {e : Engine S T N P V σ} {s t u : Session S V σ}

theorem refl (s : Session S V σ) : Follows e s s := ⟨.refl s, .refl _, rfl, rfl, rfl, rfl⟩

theorem trans (h : Follows e s t) (k : Follows e t u) : Follows e s u where
  base := h.base.trans k.base
  told := h.told.trans k.told
  accepted_eq := k.accepted_eq.trans h.accepted_eq
  failed_eq := k.failed_eq.trans h.failed_eq
  result_eq := k.result_eq.trans h.result_eq
  discarded_eq := k.discarded_eq.trans h.discarded_eq

theorem tell (h : Follows e s t) (notice : Notice S T P V) : Follows e s (t.tell e notice) :=
  ⟨h.base.trans (.of_stack rfl), h.told.notify notice, h.accepted_eq, h.failed_eq, h.result_eq,
    h.discarded_eq⟩

theorem tally (h : Follows e s t) (f : Stats → Stats)
    (hf : ∀ stats, (f stats).discarded = stats.discarded) : Follows e s (t.tally f) :=
  ⟨h.base.trans (.of_stack rfl), h.told, h.accepted_eq, h.failed_eq, h.result_eq,
    (hf t.stats).trans h.discarded_eq⟩

theorem became (h : Follows e s t) {frames : List (Frame S V)} {stack : Stack (Frame S V)}
    (hstack : t.stack.Became frames stack) : Follows e s { t with stack } where
  base := h.base.trans (.of_became hstack)
  told := h.told
  accepted_eq := h.accepted_eq
  failed_eq := h.failed_eq
  result_eq := h.result_eq
  discarded_eq := h.discarded_eq

theorem reducing {token : T} {production : P} {rule : Rule N} :
    Follows e s (s.reducing e token production rule) :=
  ((refl s).tell (.deciding s.stack token)).tell (.reducing production rule.label)

theorem lifting (h : Follows e s t) (n : Nat) : Follows e s (t.lifting e n) := by
  rw [Session.lifting]
  split
  · exact h
  · exact h.tell _

end Follows

inductive Leaves (e : Engine S T N P V σ) (s : Session S V σ) (frames : List (Frame S V)) :
    Session S V σ → Prop
  | done {t} : Follows e s t → t.stack.frames = frames → Leaves e s frames t
  | crowded {t} : s.stack.capacity ≠ none → Follows e s t → Leaves e s frames (t.fail true)

namespace Leaves

variable {e : Engine S T N P V σ} {s t u : Session S V σ} {frames : List (Frame S V)}

theorem after (h : Follows e s t) (k : Leaves e t frames u) : Leaves e s frames u := by
  cases k with
  | done k hframes => exact .done (h.trans k) hframes
  | crowded hcapacity k =>
    rw [h.base.capacity_eq] at hcapacity
    exact .crowded hcapacity (h.trans k)

end Leaves

section Steps

variable {e : Engine S T N P V σ} {s : Session S V σ}

theorem push_leaves (frame : Frame S V) (s : Session S V σ)
    (hstate : e.table.hasState frame.state) :
    ∃ t, e.push frame s = .ok () t ∧ Leaves e s (frame :: s.stack.frames) t := by
  rw [e.push_run frame s hstate]
  rcases Stack.hasRoom_or_full s.stack.capacity s.stack.depth with hroom | ⟨n, hn, hfull⟩
  · obtain ⟨stack, hpush, hstack⟩ := Stack.push_of_room (a := frame) hroom
    rw [hpush]
    exact ⟨_, rfl, .done ((Follows.refl s).became hstack) hstack.frames_eq⟩
  · rw [Stack.push_of_full hn hfull]
    have hcapacity : s.stack.capacity ≠ none := by
      rw [hn]
      exact nofun
    exact ⟨_, rfl, .crowded hcapacity ((Follows.refl s).tell _)⟩

theorem pushGoto_leaves {lhs : N} {next : S} {y : Element S V} {ys : List (Element S V)} (value : V)
    (h : s.stack.frames = flatten (y :: ys)) (hlhs : e.table.hasNonterminal lhs)
    (hstate : e.table.hasState next) (hgoto : e.table.goto y.state lhs = some next) :
    ∃ t, e.pushGoto lhs value s = .ok () t ∧
      Leaves e s (flatten (⟨next, value, []⟩ :: y :: ys)) t := by
  have htop : topState s = .ok y.state s := topState_run h
  rw [pushGoto, bind_of_ok htop, bind_of_ok (e.goto_run s hlhs hgoto)]
  obtain ⟨t, hpush, ht⟩ := push_leaves ⟨next, value, 0⟩ (s.tell e (.entering next)) hstate
  refine ⟨t, hpush, ?_⟩
  have hleaves := ht.after ((Follows.refl s).tell (.entering next))
  rw [show (s.tell e (.entering next)).stack.frames = flatten (y :: ys) from h] at hleaves
  exact hleaves

theorem popElements_append (xs : List (Element S V)) {below : List (Frame S V)}
    {s : Session S V σ} (h : s.stack.frames = flatten xs ++ below) :
    ∃ stack, s.stack.Became below stack ∧ popElements xs.length s = .ok () { s with stack } := by
  induction xs generalizing s with
  | nil => exact ⟨s.stack, ⟨h, rfl, rfl⟩, rfl⟩
  | cons x xs ih =>
    have hframes : s.stack.frames = x.head :: (x.under ++ (flatten xs ++ below)) := by
      rw [h]
      simp
    have hfolded : x.head.folded ≤ (x.under ++ (flatten xs ++ below)).length := by
      simp [Element.head]
    obtain ⟨stack, hstack, hpop⟩ := popElements_succ xs.length hframes hfolded
    have hdrop : (x.under ++ (flatten xs ++ below)).drop x.head.folded = flatten xs ++ below :=
      List.drop_left
    rw [hdrop] at hstack
    obtain ⟨stack', hstack', hrest⟩ := ih (s := { s with stack }) hstack.frames_eq
    exact ⟨stack', hstack.trans hstack', hpop.trans hrest⟩

theorem popElements_flatten (xs ys : List (Element S V)) {s : Session S V σ}
    (h : s.stack.frames = flatten (xs ++ ys)) :
    ∃ stack, s.stack.Became (flatten ys) stack ∧
      popElements xs.length s = .ok () { s with stack } :=
  popElements_append xs (h.trans (flatten_append xs ys))

theorem replace_leaves {lhs : N} {next : S} {xs : List (Element S V)} {y : Element S V}
    {ys : List (Element S V)} (value : V) (h : s.stack.frames = flatten (xs ++ y :: ys))
    (hlhs : e.table.hasNonterminal lhs) (hstate : e.table.hasState next)
    (hgoto : e.table.goto y.state lhs = some next) :
    ∃ t, (popElements xs.length >>= fun _ => e.pushGoto lhs value) s = .ok () t ∧
      Leaves e s (flatten (⟨next, value, []⟩ :: y :: ys)) t := by
  obtain ⟨stack, hstack, hpop⟩ := popElements_flatten xs (y :: ys) h
  rw [bind_of_ok hpop]
  have hframes : ({ s with stack } : Session S V σ).stack.frames = flatten (y :: ys) :=
    hstack.frames_eq
  obtain ⟨t, hpush, ht⟩ := pushGoto_leaves value hframes hlhs hstate hgoto
  exact ⟨t, hpush, ht.after ((Follows.refl s).became hstack)⟩

theorem swap_became {a b : Frame S V} {fs : List (Frame S V)} (h : s.stack.frames = a :: b :: fs) :
    ∃ t, e.swap s = .ok () t ∧ Follows e s t ∧ t.stack.frames = b :: a :: fs := by
  obtain ⟨stack, hswap, hstack⟩ := Stack.swap_of_cons h
  rw [e.swap_run, hswap]
  have hlifted : (s.lifting e 2).stack.Became (b :: a :: fs) stack := by
    rw [Session.lifting]
    split <;> exact hstack
  exact ⟨_, rfl, ((Follows.refl s).lifting 2).became hlifted, hstack.frames_eq⟩

theorem fold_became {a : Frame S V} {fs : List (Frame S V)} (h : s.stack.frames = a :: fs) :
    ∃ t, e.fold s = .ok () t ∧ Follows e s t ∧
      t.stack.frames = { a with folded := a.folded + 1 } :: fs := by
  obtain ⟨stack, hmodify, hstack⟩ := Stack.modifyTop?_of_cons
    (f := fun frame : Frame S V => { frame with folded := frame.folded + 1 }) h
  rw [e.fold_run, hmodify]
  have hlifted : (s.lifting e 1).stack.Became ({ a with folded := a.folded + 1 } :: fs) stack := by
    rw [Session.lifting]
    split <;> exact hstack
  exact ⟨_, rfl, ((Follows.refl s).lifting 1).became hlifted, hstack.frames_eq⟩

theorem pop_became {n : Nat} (h : n ≤ s.stack.depth) :
    ∃ t, pop n s = .ok () t ∧ Follows e s t ∧ t.stack.frames = s.stack.frames.drop n := by
  obtain ⟨stack, hpop, hstack⟩ := Stack.pop_of_le h
  rw [pop_run, hpop]
  exact ⟨_, rfl, (Follows.refl s).became hstack, hstack.frames_eq⟩

theorem foldSecond {value : V} {state : S} {y : Element S V} {ys : List (Element S V)}
    (h : s.stack.frames = flatten (⟨state, value, []⟩ :: y :: ys)) :
    ∃ t, (e.swap >>= fun _ => e.fold) s = .ok () t ∧ Follows e s t ∧
      t.stack.frames =
        flatten ({ y with under := ⟨state, value, 0⟩ :: y.under } :: ys) := by
  obtain ⟨t, hswap, ht, hframes⟩ := swap_became (e := e) h
  rw [bind_of_ok hswap]
  obtain ⟨u, hfold, hu, huframes⟩ := fold_became (e := e) hframes
  exact ⟨u, hfold, ht.trans hu, huframes⟩

theorem foldThird {value between : V} {state state' : S} {y : Element S V}
    {ys : List (Element S V)}
    (h : s.stack.frames = flatten (⟨state, value, []⟩ :: ⟨state', between, []⟩ :: y :: ys)) :
    ∃ t, (e.swap >>= fun _ => pop 1 >>= fun _ => e.swap >>= fun _ => e.fold) s = .ok () t ∧
      Follows e s t ∧
      t.stack.frames =
        flatten ({ y with under := ⟨state, value, 0⟩ :: y.under } :: ys) := by
  obtain ⟨t, hswap, ht, hframes⟩ := swap_became (e := e) h
  rw [bind_of_ok hswap]
  have hdepth : 1 ≤ t.stack.depth := by
    rw [← Stack.length_frames, hframes]
    simp
  obtain ⟨u, hpop, hu, huframes⟩ := pop_became (e := e) hdepth
  rw [bind_of_ok hpop]
  rw [hframes] at huframes
  obtain ⟨w, hfold, hw, hwframes⟩ := foldSecond (e := e) (s := u) huframes
  exact ⟨w, hfold, (ht.trans hu).trans hw, hwframes⟩

variable [Inhabited V]

theorem reduce_eq_applyRule {production : P} {rule : Rule N} {xs ys : List (Element S V)}
    (h : s.stack.frames = flatten (xs ++ ys)) (hsize : xs.length = rule.size)
    (hebnf : e.config.ebnf = true) (haccepts : rule.reduction.acceptsSize rule.size = true) :
    e.reduce production rule s = e.applyRule production rule s := by
  have hthere : (decide (0 < rule.size) &&
      (extentBelow? s.stack s.stack.depth (rule.size - 1)).isNone) = false := by
    rw [← hsize]
    rcases List.eq_nil_or_concat xs with rfl | ⟨init, x, rfl⟩
    · rfl
    · rw [List.concat_eq_append, List.append_assoc] at h
      have hextent := extentBelow?_flatten [] init x ys h
      rw [← show s.stack.frames = flatten (init ++ x :: ys) from h, Stack.length_frames] at hextent
      rw [List.length_concat, Nat.add_sub_cancel, hextent]
      exact Bool.and_false _
  rw [reduce, get_bind]
  simp only [hebnf, haccepts, hthere, Bool.not_true, Bool.and_false, Bool.false_eq_true, if_false]

section Rules

variable {production : P} {rule : Rule N}

theorem applyRule_action (h : rule.reduction = .action) :
    e.applyRule production rule s =
      (e.callProvider production ⟨s.stack, rule.size⟩ >>= fun value =>
        popElements rule.size >>= fun _ => e.pushGoto rule.lhs value) s := by
  simp only [applyRule, h]
  rfl

theorem applyRule_nothing (h : rule.reduction = .nothing) :
    e.applyRule production rule s =
      (popElements rule.size >>= fun _ => e.pushGoto rule.lhs default) s := by
  simp only [applyRule, h]

theorem applyRule_seqHead (h : rule.reduction = .seqHead) :
    e.applyRule production rule s = e.cover rule s := by
  simp only [applyRule, h]

theorem applyRule_seqTrail (h : rule.reduction = .seqTrail) :
    e.applyRule production rule s = (e.swap >>= fun _ => e.fold) s := by
  simp only [applyRule, h]

theorem applyRule_seqTrail2 (h : rule.reduction = .seqTrail2) :
    e.applyRule production rule s =
      (e.swap >>= fun _ => pop 1 >>= fun _ => e.swap >>= fun _ => e.fold) s := by
  simp only [applyRule, h]

end Rules

theorem cover_leaves {rule : Rule N} {next : S} {xs : List (Element S V)} {y : Element S V}
    {ys : List (Element S V)} (h : s.stack.frames = flatten (xs ++ y :: ys))
    (hplain : ∀ x ∈ xs, x.under = []) (hsize : xs.length = rule.size)
    (hlhs : e.table.hasNonterminal rule.lhs) (hstate : e.table.hasState next)
    (hgoto : e.table.goto y.state rule.lhs = some next) :
    ∃ t, e.cover rule s = .ok () t ∧
      Leaves e s (flatten (⟨next, default, xs.map Element.head⟩ :: y :: ys)) t := by
  have hextent := extentBelow?_flatten [] xs y ys h
  rw [← h, Stack.length_frames, hsize] at hextent
  have hbelow : s.stack.nth? (y.under ++ flatten ys).length = some y.head := by
    rw [flatten_append] at h
    exact nth?_of_frames h
  have hcover : e.cover rule s =
      e.push ⟨next, default, rule.size⟩ (s.tell e (.entering next)) := by
    rw [cover, get_bind]
    simp only [hextent, hbelow]
    exact bind_of_ok (e.goto_run s hlhs hgoto)
  obtain ⟨t, hpush, ht⟩ :=
    push_leaves ⟨next, default, rule.size⟩ (s.tell e (.entering next)) hstate
  have hflat : flatten xs = xs.map Element.head := by
    clear h hextent hbelow hsize
    induction xs with
    | nil => rfl
    | cons x xs ih =>
      rw [flatten_cons, hplain x List.mem_cons_self, List.nil_append, List.map_cons,
        ih fun z hz => hplain z (List.mem_cons_of_mem x hz)]
  have hframes : (s.tell e (.entering next)).stack.frames =
      xs.map Element.head ++ flatten (y :: ys) := by
    rw [← hflat, ← flatten_append]
    exact h
  refine ⟨t, hcover.trans hpush, ?_⟩
  have hleaves := ht.after ((Follows.refl s).tell (.entering next))
  rw [hframes, ← hsize] at hleaves
  simpa [Element.head] using hleaves

section Decisions

def carryOut (e : Engine S T N P V σ) (token : T) (value : V) (state : S) :
    Run S V σ Bool := do
  match e.table.action state token with
  | .shift next =>
    e.notify (.shifting next)
    count fun s => { s with shifts := s.shifts + 1 }
    e.push ⟨next, value, 0⟩
    pure true
  | .reduce production =>
    let rule ← within (e.table.rule? production)
    e.notify (.reducing production rule.label)
    e.reduce production rule
    count fun s => { s with reductions := s.reductions + 1 }
    return (← get).failed
  | .accept =>
    e.notify .accepting
    modify fun s => { s with accepted := true, result := s.stack.top?.map Frame.value }
    pure true
  | .error =>
    count fun s => { s with errors := s.errors + 1 }
    e.notify (.syntaxError ⟨state, token, e.table.expected state⟩)
    setFailed true
    pure true

theorem decideToken_eq (e : Engine S T N P V σ) (token : T) (value : V) :
    e.decideToken token value =
      (get >>= fun s => e.notify (.deciding s.stack token)) >>= fun _ =>
        topState >>= fun state => e.carryOut token value state := rfl

variable (token : T) (value : V) {head : Frame S V} {fs : List (Frame S V)}

theorem decideToken_carryOut (h : s.stack.frames = head :: fs) :
    e.decideToken token value s =
      e.carryOut token value head.state (s.tell e (.deciding s.stack token)) := by
  have htop : topState (s.tell e (.deciding s.stack token)) =
      .ok head.state (s.tell e (.deciding s.stack token)) := topState_run h
  rw [decideToken_eq, bind_assoc, get_bind]
  exact bind_of_ok htop

theorem decideToken_error (h : s.stack.frames = head :: fs)
    (haction : e.table.action head.state token = .error) :
    e.decideToken token value s =
      .ok true ((((s.tell e (.deciding s.stack token)).tally
        fun stats => { stats with errors := stats.errors + 1 }).tell e
          (.syntaxError ⟨head.state, token, e.table.expected head.state⟩)).fail true) := by
  rw [decideToken_carryOut token value h, carryOut]
  simp only [haction]
  rfl

theorem decideToken_accept (h : s.stack.frames = head :: fs)
    (haction : e.table.action head.state token = .accept) :
    e.decideToken token value s =
      .ok true { (s.tell e (.deciding s.stack token)).tell e .accepting with
        accepted := true, result := some head.value } := by
  have hresult : s.stack.top?.map Frame.value = some head.value := by
    rw [top?_of_cons h]
    rfl
  rw [decideToken_carryOut token value h, carryOut, ← hresult]
  simp only [haction]
  rfl

theorem decideToken_shift {next : S} (h : s.stack.frames = head :: fs)
    (haction : e.table.action head.state token = .shift next) :
    e.decideToken token value s = (e.push ⟨next, value, 0⟩ >>= fun _ => pure true)
      (((s.tell e (.deciding s.stack token)).tell e (.shifting next)).tally
        fun stats => { stats with shifts := stats.shifts + 1 }) := by
  rw [decideToken_carryOut token value h, carryOut]
  simp only [haction]
  rfl

theorem decideToken_reduce {production : P} {rule : Rule N} (h : s.stack.frames = head :: fs)
    (haction : e.table.action head.state token = .reduce production)
    (hrule : e.table.rule? production = some rule) :
    e.decideToken token value s = (e.reduce production rule >>= fun _ => do
      count fun stats => { stats with reductions := stats.reductions + 1 }
      return (← get).failed) (s.reducing e token production rule) := by
  rw [decideToken_carryOut token value h, carryOut]
  simp only [haction, hrule]
  rfl

theorem decideToken_unruled {production : P} (h : s.stack.frames = head :: fs)
    (haction : e.table.action head.state token = .reduce production)
    (hrule : e.table.rule? production = none) :
    e.decideToken token value s = .error .crash (s.tell e (.deciding s.stack token)) := by
  rw [decideToken_carryOut token value h, carryOut]
  simp only [haction, hrule]
  rfl

theorem decideToken_bare (h : s.stack.frames = []) :
    e.decideToken token value s = .error (.raised (.stack (.underflow 1 0)))
      (s.tell e (.deciding s.stack token)) := by
  have htop : topState (s.tell e (.deciding s.stack token)) =
      .error (.raised (.stack (.underflow 1 0))) (s.tell e (.deciding s.stack token)) :=
    topState_bare h
  rw [decideToken, get_bind]
  exact (bind_of_error htop).trans rfl

variable (e s)

/-- What deciding on a token can come to, by what the table says at the frame on top. -/
inductive Decided : EStateM.Result (Halt Fault) (Session S V σ) Bool → Prop
  | bare : s.stack.frames = [] →
      Decided (.error (.raised (.stack (.underflow 1 0))) (s.tell e (.deciding s.stack token)))
  | refused {top below} : s.stack.frames = top :: below → e.table.action top.state token = .error →
      Decided (.ok true ((((s.tell e (.deciding s.stack token)).tally
        fun stats => { stats with errors := stats.errors + 1 }).tell e
          (.syntaxError ⟨top.state, token, e.table.expected top.state⟩)).fail true))
  | accepted {top below} : s.stack.frames = top :: below → e.table.action top.state token = .accept →
      Decided (.ok true { (s.tell e (.deciding s.stack token)).tell e .accepting with
        accepted := true, result := some top.value })
  | shifted {top below next t} : s.stack.frames = top :: below →
      e.table.action top.state token = .shift next →
      e.push ⟨next, value, 0⟩ (((s.tell e (.deciding s.stack token)).tell e (.shifting next)).tally
        fun stats => { stats with shifts := stats.shifts + 1 }) = .ok () t → Decided (.ok true t)
  | unshifted {top below next halt t} : s.stack.frames = top :: below →
      e.table.action top.state token = .shift next →
      e.push ⟨next, value, 0⟩ (((s.tell e (.deciding s.stack token)).tell e (.shifting next)).tally
        fun stats => { stats with shifts := stats.shifts + 1 }) = .error halt t →
      Decided (.error halt t)
  | reduced {top below production rule settled t} : s.stack.frames = top :: below →
      e.table.action top.state token = .reduce production →
      e.table.rule? production = some rule →
      e.reduce production rule (s.reducing e token production rule) = .ok () t →
      t.failed = settled →
      Decided (.ok settled (t.tally fun stats => { stats with reductions := stats.reductions + 1 }))
  | unreduced {top below production rule halt t} : s.stack.frames = top :: below →
      e.table.action top.state token = .reduce production →
      e.table.rule? production = some rule →
      e.reduce production rule (s.reducing e token production rule) = .error halt t →
      Decided (.error halt t)
  | unruled {top below production} : s.stack.frames = top :: below →
      e.table.action top.state token = .reduce production →
      e.table.rule? production = none →
      Decided (.error .crash (s.tell e (.deciding s.stack token)))

theorem decideToken_decided : Decided e s token value (e.decideToken token value s) := by
  rcases hframes : s.stack.frames with _ | ⟨head, fs⟩
  · rw [decideToken_bare token value hframes]
    exact .bare hframes
  cases haction : e.table.action head.state token with
  | error =>
    rw [decideToken_error token value hframes haction]
    exact .refused hframes haction
  | accept =>
    rw [decideToken_accept token value hframes haction]
    exact .accepted hframes haction
  | shift next =>
    rw [decideToken_shift token value hframes haction]
    cases hpush : e.push ⟨next, value, 0⟩ _ with
    | ok _ t =>
      rw [bind_of_ok hpush]
      exact .shifted hframes haction hpush
    | error halt t =>
      rw [bind_of_error hpush]
      exact .unshifted hframes haction hpush
  | reduce production =>
    cases hrule : e.table.rule? production with
    | none =>
      rw [decideToken_unruled token value hframes haction hrule]
      exact .unruled hframes haction hrule
    | some rule =>
      rw [decideToken_reduce token value hframes haction hrule]
      cases hreduce : e.reduce production rule _ with
      | ok _ t =>
        rw [bind_of_ok hreduce]
        exact .reduced hframes haction hrule hreduce rfl
      | error halt t =>
        rw [bind_of_error hreduce]
        exact .unreduced hframes haction hrule hreduce

variable {e s}

theorem decide_error (h : s.stack.frames = head :: fs)
    (haction : e.table.action head.state token = .error) :
    ∃ t, Follows e s t ∧ t.stack = s.stack ∧
      e.decideToken token value s = .ok true (t.fail true) := by
  have hcounted : Follows e s ((s.tell e (.deciding s.stack token)).tally
      fun stats => { stats with errors := stats.errors + 1 }) :=
    ((Follows.refl s).tell _).tally _ fun _ => rfl
  exact ⟨_, hcounted.tell _, rfl, decideToken_error token value h haction⟩

theorem decide_accept (h : s.stack.frames = head :: fs)
    (haction : e.table.action head.state token = .accept) :
    ∃ t, Follows e s t ∧ t.stack = s.stack ∧ e.decideToken token value s =
      .ok true { t with accepted := true, result := some head.value } :=
  ⟨_, ((Follows.refl s).tell _).tell _, rfl, decideToken_accept token value h haction⟩

theorem decide_shift {next : S} (h : s.stack.frames = head :: fs)
    (haction : e.table.action head.state token = .shift next) (hstate : e.table.hasState next) :
    ∃ t, e.decideToken token value s = .ok true t ∧
      Leaves e s (⟨next, value, 0⟩ :: s.stack.frames) t := by
  let u := ((s.tell e (.deciding s.stack token)).tell e (.shifting next)).tally
    fun stats => { stats with shifts := stats.shifts + 1 }
  have hu : Follows e s u :=
    (((Follows.refl s).tell (.deciding s.stack token)).tell (.shifting next)).tally _ fun _ => rfl
  obtain ⟨t, hpush, ht⟩ := push_leaves ⟨next, value, 0⟩ u hstate
  refine ⟨t, ?_, ht.after hu⟩
  rw [decideToken_shift token value h haction]
  exact bind_of_ok (f := fun _ => (pure true : Run S V σ Bool)) hpush

theorem decide_reduce {production : P} {rule : Rule N} (h : s.stack.frames = head :: fs)
    (haction : e.table.action head.state token = .reduce production)
    (hrule : e.table.rule? production = some rule) :
    (∀ u, e.reduce production rule (s.reducing e token production rule) = .ok () u →
      e.decideToken token value s = .ok u.failed
        (u.tally fun stats => { stats with reductions := stats.reductions + 1 })) ∧
    ∀ halt u, e.reduce production rule (s.reducing e token production rule) = .error halt u →
      e.decideToken token value s = .error halt u := by
  constructor
  · intro u hu
    rw [decideToken_reduce token value h haction hrule, bind_of_ok hu]
    rfl
  · intro halt u hu
    rw [decideToken_reduce token value h haction hrule, bind_of_error hu]

end Decisions

end Steps

end Engine

end ShiftReduce
