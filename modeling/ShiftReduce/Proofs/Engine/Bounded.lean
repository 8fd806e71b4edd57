import ShiftReduce.Proofs.Engine.Whole
import ShiftReduce.Proofs.Frame.Grounded

namespace ShiftReduce.Engine

variable {S T N P V σ α β : Type}

def Sustains (P : Session S V σ → Prop) (x : Run S V σ α) : Prop := ∀ s, P s → P (final (x s))

namespace Sustains

variable {P : Session S V σ → Prop}

theorem bind {x : Run S V σ α} {f : α → Run S V σ β} (hx : Sustains P x)
    (hf : ∀ a, Sustains P (f a)) : Sustains P (x >>= f) := by
  intro s hs
  rcases final_bind x f s with h | ⟨a, h⟩
  · rw [h]
    exact hx s hs
  · rw [h]
    exact hf a _ (hx s hs)

theorem get_bind {f : Session S V σ → Run S V σ β} (hf : ∀ s, Sustains P (f s)) :
    Sustains P (get >>= f) := fun s => hf s s

theorem answer (a : α) : Sustains P (pure a : Run S V σ α) := fun _ hs => hs

theorem halt (halt : Halt Fault) : Sustains P (throw halt : Run S V σ α) := fun _ hs => hs

theorem underflow (n : Nat) : Sustains P (Engine.underflow n : Run S V σ α) := fun _ hs => hs

theorem within (a : Option α) : Sustains P (Engine.within a : Run S V σ α) := by
  cases a <;> exact fun _ hs => hs

theorem topState : Sustains P (Engine.topState : Run S V σ S) := by
  apply get_bind
  intro s
  split
  · exact answer _
  · exact underflow 1

end Sustains

def inTurn : List (Run S V σ Unit) → Run S V σ Unit
  | [] => pure ()
  | x :: xs => do
    x
    inTurn xs

theorem inTurn_singleton (x : Run S V σ Unit) : inTurn [x] = x := bind_pure x

theorem inTurn_append (xs ys : List (Run S V σ Unit)) :
    inTurn (xs ++ ys) = inTurn xs >>= fun _ => inTurn ys := by
  induction xs with
  | nil => exact (pure_bind () fun _ => inTurn ys).symm
  | cons x xs ih => rw [List.cons_append, inTurn, inTurn, ih, bind_assoc]

theorem Sustains.inTurn {P : Session S V σ → Prop} {xs : List (Run S V σ Unit)}
    (h : ∀ x ∈ xs, Sustains P x) : Sustains P (Engine.inTurn xs) := by
  induction xs with
  | nil => exact .answer ()
  | cons x xs ih =>
    obtain ⟨hx, hxs⟩ := List.forall_mem_cons.mp h
    exact hx.bind fun _ => ih hxs

theorem popElements_eq_inTurn (n : Nat) :
    (popElements n : Run S V σ Unit) = inTurn (List.replicate n (popElements 1)) := by
  induction n with
  | zero => rfl
  | succ n ih =>
    rw [List.replicate_succ, inTurn, ← ih]
    funext s
    simp only [popElements, bind_assoc, Engine.get_bind]
    cases s.stack.top? with
    | some frame => simp only [bind_assoc, pure_bind]
    | none => rfl

section Writes

variable [Inhabited V] (e : Engine S T N P V σ)

/-- The writes to the stack of a reduction that has passed its checks, in order. -/
def writes (rule : Rule N) (value : V) : List (Run S V σ Unit) :=
  match rule.reduction with
  | .action | .nothing => List.replicate rule.size (popElements 1) ++ [e.pushGoto rule.lhs value]
  | .seqHead | .optNothing | .optJust => [e.cover rule]
  | .seqTrail => [e.swap, e.fold]
  | .seqTrail2 => [e.swap, pop 1, e.swap, e.fold]

/-- The reduction passes its checks: its size fits, and its elements are on the stack. -/
structure Admits (rule : Rule N) (s : Session S V σ) : Prop where
  accepts : rule.reduction.acceptsSize rule.size = true
  there : 0 < rule.size → (extentBelow? s.stack s.stack.depth (rule.size - 1)).isSome = true

variable {e} {production : P} {rule : Rule N} {s : Session S V σ}

theorem applyRule_inTurn (h : rule.reduction ≠ .action) :
    e.applyRule production rule = inTurn (e.writes rule default) := by
  cases hreduction : rule.reduction with
  | action => exact absurd hreduction h
  | nothing =>
    simp only [applyRule, writes, hreduction, inTurn_append, ← popElements_eq_inTurn, inTurn]
    simp
  | seqHead | optNothing | optJust | seqTrail | seqTrail2 =>
    simp only [applyRule, writes, hreduction, inTurn]
    simp

theorem applyRule_inTurn_action (h : rule.reduction = .action) :
    e.applyRule production rule s =
      (e.callProvider production ⟨s.stack, rule.size⟩ >>= fun value =>
        inTurn (e.writes rule value)) s := by
  rw [applyRule_action h]
  simp only [writes, h, inTurn_append, ← popElements_eq_inTurn, inTurn]
  simp

end Writes

/-- No frame has folded more than lies below it, and the capacity is kept. -/
structure Bounded (s : Session S V σ) : Prop where
  grounded : Grounded s.stack.frames
  within : ∀ n, s.stack.capacity = some n → s.stack.depth ≤ n

namespace Bounded

variable {s t : Session S V σ}

theorem of_stack (h : Bounded s) (hstack : t.stack = s.stack) : Bounded t := by
  constructor
  · rw [hstack]
    exact h.grounded
  · rw [hstack]
    exact h.within

theorem of_sameBase (h : Bounded s) (hbase : SameBase s t) (hgrounded : Grounded t.stack.frames)
    (hlength : t.stack.frames.length ≤ s.stack.frames.length) : Bounded t := by
  refine ⟨hgrounded, fun n hn => ?_⟩
  rw [hbase.capacity_eq] at hn
  simp only [Stack.length_frames] at hlength
  exact Nat.le_trans hlength (h.within n hn)

theorem pop (n : Nat) : Sustains Bounded (Engine.pop n : Run S V σ Unit) := by
  intro s hs
  rw [pop_run]
  rcases Nat.lt_or_ge s.stack.depth n with hlt | hle
  · rw [Stack.pop_of_lt hlt]
    exact hs
  · obtain ⟨stack, hpop, hstack⟩ := Stack.pop_of_le hle
    rw [hpop]
    have hframes := hstack.frames_eq
    refine hs.of_sameBase (.of_became hstack) ?_ ?_
    · simp only [final, hframes]
      exact hs.grounded.drop n
    · simp only [final, hframes, List.length_drop]
      omega

theorem popElements (n : Nat) : Sustains Bounded (Engine.popElements n : Run S V σ Unit) := by
  induction n with
  | zero => exact .answer ()
  | succ n ih =>
    apply Sustains.get_bind
    intro s
    split
    · exact (pop _).bind fun _ => ih
    · exact .underflow 1

section Provided

variable (e : Engine S T N P V σ)

theorem notify (notice : Notice S T P V) : Sustains Bounded (e.notify notice) :=
  fun _ hs => hs.of_stack rfl

theorem count (f : Stats → Stats) : Sustains Bounded (Engine.count f : Run S V σ Unit) :=
  fun _ hs => hs.of_stack rfl

theorem callProvider (production : P) (args : Args S V) :
    Sustains Bounded (e.callProvider production args) := by
  intro s hs
  rw [Engine.callProvider]
  split <;> exact hs.of_stack rfl

theorem push (frame : Frame S V) (hs : Bounded s) (hfolded : frame.folded ≤ s.stack.depth) :
    Bounded (final (e.push frame s)) := by
  by_cases hstate : e.table.hasState frame.state
  · rw [e.push_run frame s hstate]
    rcases Stack.hasRoom_or_full s.stack.capacity s.stack.depth with hroom | ⟨n, hn, hfull⟩
    · obtain ⟨stack, hpush, hstack⟩ := Stack.push_of_room (a := frame) hroom
      rw [hpush]
      constructor
      · simp only [final, hstack.frames_eq]
        rw [← Stack.length_frames] at hfolded
        exact ⟨hfolded, hs.grounded⟩
      · intro n hn
        have hlength := Stack.length_frames stack
        simp only [final, hstack.capacity_eq] at hn ⊢
        rw [← hlength, hstack.frames_eq, List.length_cons, Stack.length_frames]
        exact hroom n hn
    · rw [Stack.push_of_full hn hfull]
      exact hs.of_stack rfl
  · rw [e.push_crash frame s hstate]
    exact hs

theorem push_plain (state : S) (value : V) : Sustains Bounded (e.push ⟨state, value, 0⟩) :=
  fun _ hs => hs.push e _ (Nat.zero_le _)

theorem goto (state : S) (lhs : N) : Sustains Bounded (e.goto state lhs) := by
  rw [Engine.goto]
  split
  · split
    · exact (notify e _).bind fun _ => .answer _
    · exact .halt _
  · exact .halt _

theorem pushGoto (lhs : N) (value : V) : Sustains Bounded (e.pushGoto lhs value) :=
  Sustains.topState.bind fun state => (goto e state lhs).bind fun next => push_plain e next value

end Provided

section Folding

variable {e : Engine S T N P V σ} {a b : Frame S V} {fs : List (Frame S V)}
  {pre : List (Run S V σ Unit)}

theorem swap (hs : Bounded s) (h : s.stack.frames = a :: b :: fs) (ha : a.folded ≤ fs.length) :
    ∃ t, e.swap s = .ok () t ∧ Bounded t ∧ t.stack.frames = b :: a :: fs := by
  obtain ⟨t, hswap, ht, hframes⟩ := swap_became (e := e) h
  have hgrounded := hs.grounded
  rw [h] at hgrounded
  refine ⟨t, hswap, hs.of_sameBase ht.base ?_ ?_, hframes⟩
  · rw [hframes]
    exact hgrounded.swap ha
  · rw [hframes, h]
    exact Nat.le_refl _

theorem fold (hs : Bounded s) (h : s.stack.frames = a :: fs) (ha : a.folded < fs.length) :
    Bounded (final (e.fold s)) := by
  obtain ⟨t, hfold, ht, hframes⟩ := fold_became (e := e) h
  have hgrounded := hs.grounded
  rw [h] at hgrounded
  rw [hfold]
  refine hs.of_sameBase ht.base ?_ ?_
  · rw [final, hframes]
    exact hgrounded.fold ha
  · rw [final, hframes, h]
    exact Nat.le_refl _

theorem foldSecond (hs : Bounded s) (h : s.stack.frames = a :: b :: fs)
    (ha : a.folded ≤ fs.length) (hpre : pre <+: [e.swap, e.fold]) :
    Bounded (final (inTurn pre s)) := by
  obtain ⟨t, hswap, ht, hframes⟩ := hs.swap (e := e) h ha
  have hb : b.folded < (a :: fs).length := by
    have hgrounded := hs.grounded
    rw [h] at hgrounded
    exact Nat.lt_succ_of_le hgrounded.2.1
  rcases List.prefix_cons_iff.mp hpre with rfl | ⟨pre, rfl, hrest⟩
  · exact hs
  rw [inTurn, bind_of_ok hswap]
  rcases List.prefix_cons_iff.mp hrest with rfl | ⟨pre, rfl, hnil⟩
  · exact ht
  obtain rfl := List.prefix_nil.mp hnil
  rw [inTurn_singleton]
  exact ht.fold hframes hb

theorem foldThird {c : Frame S V} (hs : Bounded s) (h : s.stack.frames = a :: b :: c :: fs)
    (ha : a.folded ≤ fs.length) (hpre : pre <+: [e.swap, Engine.pop 1, e.swap, e.fold]) :
    Bounded (final (inTurn pre s)) := by
  obtain ⟨t, hswap, ht, hframes⟩ := hs.swap (e := e) h (Nat.le_succ_of_le ha)
  have hdepth : 1 ≤ t.stack.depth := by
    rw [← Stack.length_frames, hframes]
    simp
  obtain ⟨u, hpop, -, huframes⟩ := pop_became (e := e) hdepth
  rw [hframes] at huframes
  have hu : Bounded u := by
    have hpopped := pop 1 t ht
    rwa [hpop] at hpopped
  rcases List.prefix_cons_iff.mp hpre with rfl | ⟨pre, rfl, hrest⟩
  · exact hs
  rw [inTurn, bind_of_ok hswap]
  rcases List.prefix_cons_iff.mp hrest with rfl | ⟨pre, rfl, hfold⟩
  · exact ht
  rw [inTurn, bind_of_ok hpop]
  exact hu.foldSecond huframes ha hfold

end Folding

section Reducing

variable [Inhabited V] {e : Engine S T N P V σ} {production : P} {rule : Rule N}

theorem cover (rule : Rule N) : Sustains Bounded (e.cover rule) := by
  intro s hs
  rw [Engine.cover, Engine.get_bind]
  cases hextent : extentBelow? s.stack s.stack.depth rule.size with
  | none => exact hs
  | some extent =>
    -- The elements that are covered, and the one below them, are there.
    have hthere : rule.size ≤ s.stack.depth := by
      obtain ⟨xs, below, hframes, hlength⟩ : ∃ xs below, s.stack.frames = flatten xs ++ below ∧
        xs.length = rule.size + 1 := exists_elements_of_size fun _ => by
          rw [Nat.add_sub_cancel, hextent]
          rfl
      have hxs := length_le_flatten xs
      rw [← Stack.length_frames, hframes, List.length_append]
      omega
    dsimp only
    cases hbelow : s.stack.nth? extent.stop with
    | none => exact hs
    | some below =>
      rw [bind_of_ok (show Engine.within (some below) s = .ok below s from rfl)]
      have hgoto := goto e below.state rule.lhs s hs
      cases hnext : e.goto below.state rule.lhs s with
      | error halt t =>
        rw [bind_of_error hnext]
        rwa [hnext] at hgoto
      | ok next t =>
        rw [bind_of_ok hnext]
        rw [hnext] at hgoto
        rw [← stack_of_goto_ok hnext] at hthere
        exact hgoto.push e _ hthere

end Reducing

end Bounded

namespace Admits

variable {e : Engine S T N P V σ} {rule : Rule N} {s : Session S V σ}

theorem of_stack (h : Admits rule s) {t : Session S V σ} (hstack : t.stack = s.stack) :
    Admits rule t := by
  refine ⟨h.accepts, fun hsize => ?_⟩
  rw [hstack]
  exact h.there hsize

theorem size_le (h : Admits rule s) : rule.size ≤ s.stack.frames.length := by
  obtain ⟨xs, below, hframes, hsize⟩ := exists_elements_of_size h.there
  have hxs := length_le_flatten xs
  rw [hframes, List.length_append]
  omega

theorem folded_add_le (h : Admits rule s) {n : Nat} (hsize : rule.size = n + 1) {a : Frame S V}
    {fs : List (Frame S V)} (hframes : s.stack.frames = a :: fs) : a.folded + n ≤ fs.length := by
  obtain ⟨xs, below, hflat, hlength⟩ := exists_elements_of_size h.there
  rw [hsize] at hlength
  obtain ⟨x, xs, rfl⟩ := List.exists_cons_of_length_eq_add_one hlength
  rw [← Nat.succ.inj hlength]
  exact folded_add_length_le (hframes.symm.trans hflat)

variable [Inhabited V]

theorem writes_bounded (h : Admits rule s) (hs : Bounded s) {value : V}
    {pre : List (Run S V σ Unit)} (hpre : pre <+: e.writes rule value) :
    Bounded (final (inTurn pre s)) := by
  have haccepts := h.accepts
  have hsize := h.size_le
  rw [writes] at hpre
  cases hreduction : rule.reduction with
  | action | nothing =>
    simp only [hreduction] at hpre
    refine Sustains.inTurn (fun x hx => ?_) s hs
    rcases List.mem_append.mp (hpre.subset hx) with hx | hx
    · rw [List.eq_of_mem_replicate hx]
      exact Bounded.popElements 1
    · rw [List.mem_singleton.mp hx]
      exact Bounded.pushGoto e rule.lhs value
  | seqHead | optNothing | optJust =>
    simp only [hreduction] at hpre
    refine Sustains.inTurn (fun x hx => ?_) s hs
    rw [List.mem_singleton.mp (hpre.subset hx)]
    exact Bounded.cover rule
  | seqTrail =>
    simp only [hreduction] at hpre haccepts
    have htwo : rule.size = 2 := by simpa [Reduction.acceptsSize] using haccepts
    rcases hframes : s.stack.frames with _ | ⟨a, _ | ⟨b, fs⟩⟩
    · simp [hframes, htwo] at hsize
    · simp [hframes, htwo] at hsize
    · have ha := h.folded_add_le htwo hframes
      exact hs.foldSecond hframes (Nat.le_of_succ_le_succ ha) hpre
  | seqTrail2 =>
    simp only [hreduction] at hpre haccepts
    have hthree : rule.size = 3 := by simpa [Reduction.acceptsSize] using haccepts
    rcases hframes : s.stack.frames with _ | ⟨a, _ | ⟨b, _ | ⟨c, fs⟩⟩⟩
    · simp [hframes, hthree] at hsize
    · simp [hframes, hthree] at hsize
    · simp [hframes, hthree] at hsize
    · have ha := h.folded_add_le hthree hframes
      exact hs.foldThird hframes (Nat.le_of_add_le_add_right ha) hpre

end Admits

section Driving

variable [Inhabited V] {e : Engine S T N P V σ} {production : P} {rule : Rule N} {token : T}
  {value : V} {s t : Session S V σ}

theorem applyRule_bounded (hs : Bounded s) (h : Admits rule s) :
    Bounded (final (e.applyRule production rule s)) := by
  by_cases hreduction : rule.reduction = .action
  · rw [applyRule_inTurn_action hreduction]
    have hcall := Bounded.callProvider e production ⟨s.stack, rule.size⟩ s hs
    cases hvalue : e.callProvider production ⟨s.stack, rule.size⟩ s with
    | ok value t =>
      rw [bind_of_ok hvalue]
      rw [hvalue] at hcall
      have hstack := stack_of_callProvider_ok hvalue
      exact (h.of_stack hstack).writes_bounded hcall List.prefix_rfl
    | error halt t =>
      rw [bind_of_error hvalue]
      rwa [hvalue] at hcall
  · rw [applyRule_inTurn hreduction]
    exact h.writes_bounded hs List.prefix_rfl

theorem reduce_bounded (production : P) (rule : Rule N) :
    Sustains Bounded (e.reduce production rule) := by
  intro s hs
  rw [reduce, Engine.get_bind]
  split
  · exact hs
  split
  · exact hs
  next haccepts =>
    split
    · exact hs
    next hthere =>
      refine applyRule_bounded hs ⟨by simpa using haccepts, fun hsize => ?_⟩
      simpa [hsize, Option.isSome_iff_ne_none] using hthere

theorem decideToken_bounded (token : T) (value : V) :
    Sustains Bounded (e.decideToken token value) := by
  apply Sustains.get_bind
  intro s
  refine (Bounded.notify e _).bind fun _ => Sustains.topState.bind fun state => ?_
  split
  · exact (Bounded.notify e _).bind fun _ => (Bounded.count _).bind fun _ =>
      (Bounded.push_plain e _ _).bind fun _ => .answer _
  · refine (Sustains.within _).bind fun rule => (Bounded.notify e _).bind fun _ => ?_
    refine (reduce_bounded _ rule).bind fun _ => (Bounded.count _).bind fun _ => ?_
    exact .get_bind fun s => .answer _
  · exact (Bounded.notify e _).bind fun _ s hs => hs.of_stack rfl
  · exact (Bounded.count _).bind fun _ => (Bounded.notify e _).bind fun _ s hs => hs.of_stack rfl

theorem driveWithin_bounded (token : T) (value : V) (steps : Nat) :
    Sustains Bounded (e.driveWithin token value steps) := by
  induction steps with
  | zero => exact .halt _
  | succ steps ih =>
    refine (decideToken_bounded token value).bind fun settled => ?_
    split
    · exact .answer ()
    · exact ih

theorem drive_bounded (token : T) (value : V) : Sustains Bounded (e.drive token value) :=
  .get_bind fun _ => driveWithin_bounded token value _

theorem decideToken_nonempty (h : e.decideToken token value s = .ok true t)
    (hopen : t.failed = false) : t.stack.frames ≠ [] := by
  have hdecided := decideToken_decided e s token value
  rw [h] at hdecided
  cases hdecided with
  | refused => cases hopen
  | accepted hframes =>
    intro hnil
    cases hframes.symm.trans hnil
  | shifted _ _ hpush =>
    rw [frames_of_push_ok hpush hopen]
    exact List.cons_ne_nil _ _
  | reduced _ _ _ _ hfailed =>
    -- A reduction settles the token only when it has failed.
    cases hopen.symm.trans hfailed

theorem driveWithin_nonempty {steps : Nat} (h : e.driveWithin token value steps s = .ok () t)
    (hopen : t.failed = false) : t.stack.frames ≠ [] := by
  induction steps generalizing s with
  | zero => cases h
  | succ steps ih =>
    obtain ⟨settled, u, hdecide, h⟩ := exists_of_bind_ok h
    cases settled with
    | true =>
      cases h
      exact decideToken_nonempty hdecide hopen
    | false => exact ih h

theorem drive_nonempty (h : e.drive token value s = .ok () t) (hopen : t.failed = false) :
    t.stack.frames ≠ [] := driveWithin_nonempty h hopen

end Driving

end ShiftReduce.Engine
