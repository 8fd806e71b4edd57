import ShiftReduce.Proofs.Engine.Client
import ShiftReduce.Proofs.Engine.Reached

/-!
Two runs side by side. The sessions of the two runs differ in their clients and in the bounds of
their stacks alone, and so do the options of the two engines. As long as nothing happens that the
options decide about, the runs answer alike and stay side by side.
-/

namespace ShiftReduce

section Resized

variable {S V α : Type}

namespace Stack

def resized (capacity : Option Nat) (s : Stack α) : Stack α := { s with capacity }

variable (k : Option Nat) (s : Stack α)

variable {k} in
theorem push_resized (a : α) (h : HasRoom k s.depth) :
    (s.resized k).push a = .ok ({ s with pending := s.pending.put a }.resized k) := by
  cases k with
  | none => rfl
  | some n => exact if_neg (Nat.not_le.mpr (h n rfl))

theorem pop_resized (n : Nat) : (s.resized k).pop n = (s.pop n).map (resized k) := by
  show (if s.depth < n then _ else _) = _
  unfold pop
  split <;> rfl

theorem swap_resized : (s.resized k).swap = s.swap.map (resized k) := by
  have hlift : (s.resized k).lift 2 = (s.lift 2).resized k := rfl
  rw [swap, swap, hlift]
  dsimp only [resized]
  split <;> rfl

theorem modifyTop?_resized (f : α → α) :
    (s.resized k).modifyTop? f = (s.modifyTop? f).map (resized k) := by
  have hlift : (s.resized k).lift 1 = (s.lift 1).resized k := rfl
  rw [modifyTop?, modifyTop?, hlift]
  dsimp only [resized]
  split <;> rfl

end Stack

theorem frames_resized (k : Option Nat) (stack : Stack (Frame S V)) :
    (stack.resized k).frames = stack.frames := rfl

theorem extentBelow?_resized (k : Option Nat) (stack : Stack (Frame S V)) (depth n : Nat) :
    extentBelow? (stack.resized k) depth n = extentBelow? stack depth n :=
  extentBelow?_congr (frames_resized k stack) depth n

/-- What can be seen of the arguments of a reduction: of each the value, the values folded under it,
and the value that it has as an optional symbol. -/
def Args.contents (args : Args S V) : List (Option V × Option (List V) × Option (Option V)) :=
  (List.range args.size).map fun i => (args.get? i, args.sequence? i, args.optional? i)

theorem Args.contents_getD (args : Args S V) (i : Nat) :
    (args.contents[i]?).getD (none, none, none) =
      (args.get? i, args.sequence? i, args.optional? i) := by
  rw [contents, List.getElem?_map]
  rcases Nat.lt_or_ge i args.size with hlt | hle
  · rw [List.getElem?_range hlt]
    rfl
  · have hextent : args.extent? i = none := if_neg (Nat.not_lt.mpr hle)
    rw [List.getElem?_eq_none (by rwa [List.length_range]), get?, sequence?, optional?, hextent]
    rfl

theorem Args.contents_resized (k : Option Nat) (stack : Stack (Frame S V)) (size : Nat) :
    Args.contents ⟨stack.resized k, size⟩ = Args.contents ⟨stack, size⟩ := by
  have hextent : ∀ i, Args.extent? ⟨stack.resized k, size⟩ i = Args.extent? ⟨stack, size⟩ i :=
    extent?_congr (frames_resized k stack) size
  simp only [contents, get?, sequence?, optional?, hextent]
  rfl

end Resized

variable {S T N P V σ α β : Type}

def Session.twin (capacity : Option Nat) (client : σ) (s : Session S V σ) : Session S V σ :=
  { s with stack := s.stack.resized capacity, client }

/-- Two runs to be compared: of an engine, and of the engine with other options. -/
structure Comparison (S T N P V σ : Type) where
  engine : Engine S T N P V σ
  config : Config T
  Alike : σ → σ → Prop
  Alarmed : σ → Prop
  Excused : Fault → Prop

namespace Comparison

variable (C : Comparison S T N P V σ)

def other : Engine S T N P V σ := { C.engine with config := C.config }

inductive Twins : Session S V σ → Session S V σ → Prop
  | intro (s : Session S V σ) {u u' : σ} : C.Alike u u' →
      Twins (s.twin C.engine.config.capacity u) (s.twin C.config.capacity u')

variable {C} in
theorem Twins.of_capacity {s : Session S V σ} {client : σ}
    (h : s.stack.capacity = C.engine.config.capacity) (h' : s.stack.capacity = C.config.capacity)
    (halike : C.Alike s.client client) : C.Twins s { s with client } := by
  have hresized : ∀ k, s.stack.capacity = k → s.stack.resized k = s.stack := by
    rintro _ rfl
    rfl
  have htwins := Twins.intro s halike
  rwa [Session.twin, Session.twin, hresized _ h, hresized _ h'] at htwins

inductive Tracks : EStateM.Result (Halt Fault) (Session S V σ) α →
    EStateM.Result (Halt Fault) (Session S V σ) α → Prop
  | answered {a t t'} : C.Twins t t' → Tracks (.ok a t) (.ok a t')
  | halted {halt t t'} : C.Twins t t' → Tracks (.error halt t) (.error halt t')
  | alarmed {r r'} : C.Alarmed (Engine.final r).client → Tracks r r'
  | excused {f t r'} : C.Excused f → Tracks (.error (.raised f) t) r'

def Mimics (x x' : Run S V σ α) : Prop := ∀ s s', C.Twins s s' → C.Tracks (x s) (x' s')

def Roomier : Option Nat → Option Nat → Prop
  | _, none => True
  | some n, some m => n ≤ m
  | none, some _ => False

theorem Roomier.hasRoom {k k' : Option Nat} {depth : Nat} (h : Roomier k k')
    (hroom : Stack.HasRoom k depth) : Stack.HasRoom k' depth := by
  cases k' with
  | none => exact nofun
  | some m =>
    cases k with
    | none => exact absurd h id
    | some n =>
      rintro _ ⟨⟩
      exact Nat.lt_of_lt_of_le (hroom n rfl) h

structure Fair : Prop where
  keeps : C.engine.Keeps fun c _ => C.Alarmed c
  called : ∀ production {args args' : Args S V} {u u' : σ}, args.contents = args'.contents →
    C.Alike u u' →
    outcome (C.engine.provider.reduce production args' u') =
        outcome (C.engine.provider.reduce production args u) ∧
      C.Alike (remains (C.engine.provider.reduce production args u))
        (remains (C.engine.provider.reduce production args' u'))
  told : ∀ notice {u u' : σ}, C.Alike u u' →
    C.Alike (C.engine.provider.notify notice u) (C.engine.provider.notify notice u')
  deciding : ∀ stack stack' token {u u' : σ}, C.Alike u u' →
    C.Alike (C.engine.provider.notify (.deciding stack token) u)
      (C.engine.provider.notify (.deciding stack' token) u')
  ebnf : C.config.ebnf = C.engine.config.ebnf ∨
    C.config.ebnf = true ∧ ∀ label, C.Excused (.ebnfDisabled label)
  overflow : C.config.capacity = C.engine.config.capacity ∨
    Roomier C.engine.config.capacity C.config.capacity ∧
      ∀ err u, C.Alarmed (C.engine.provider.notify (.stackOverflow err) u)
  recovery : (C.config.recovery = C.engine.config.recovery ∧
      C.config.endToken = C.engine.config.endToken) ∨
    (∀ err u, C.Alarmed (C.engine.provider.notify (.stackOverflow err) u)) ∧
      ∀ err u, C.Alarmed (C.engine.provider.notify (.syntaxError err) u)

variable {C}

theorem Tracks.bind {x x' : Run S V σ α} {f f' : α → Run S V σ β} {s s' : Session S V σ}
    (hx : C.Tracks (x s) (x' s'))
    (hkeeps : ∀ a, Engine.Sustains (Engine.Kept fun c _ => C.Alarmed c) (f a))
    (hf : ∀ a t t', x s = .ok a t → C.Twins t t' → C.Tracks (f a t) (f' a t')) :
    C.Tracks ((x >>= f) s) ((x' >>= f') s') := by
  cases hrun : x s with
  | ok a t =>
    rw [hrun] at hx
    rw [Engine.bind_of_ok hrun]
    cases hrun' : x' s' with
    | ok a' t' =>
      rw [hrun'] at hx
      rw [Engine.bind_of_ok hrun']
      cases hx with
      | answered ht => exact hf a t t' hrun ht
      | alarmed halarmed => exact .alarmed (hkeeps a t halarmed)
    | error halt t' =>
      rw [hrun'] at hx
      rw [Engine.bind_of_error hrun']
      cases hx with
      | alarmed halarmed => exact .alarmed (hkeeps a t halarmed)
  | error halt t =>
    rw [hrun] at hx
    rw [Engine.bind_of_error hrun]
    generalize hrun' : x' s' = r' at hx
    cases hx with
    | halted ht =>
      rw [Engine.bind_of_error hrun']
      exact .halted ht
    | alarmed halarmed => exact .alarmed halarmed
    | excused hexcused => exact .excused hexcused

namespace Mimics

theorem bind {x x' : Run S V σ α} {f f' : α → Run S V σ β} (hx : C.Mimics x x')
    (hkeeps : ∀ a, Engine.Sustains (Engine.Kept fun c _ => C.Alarmed c) (f a))
    (hf : ∀ a, C.Mimics (f a) (f' a)) : C.Mimics (x >>= f) (x' >>= f') :=
  fun s s' hs => (hx s s' hs).bind hkeeps fun a t t' _ ht => hf a t t' ht

theorem get_bind {f f' : Session S V σ → Run S V σ α}
    (h : ∀ (s : Session S V σ) u u', C.Alike u u' → C.Mimics (f (s.twin C.engine.config.capacity u))
      (f' (s.twin C.config.capacity u'))) : C.Mimics (get >>= f) (get >>= f') := by
  rintro _ _ ⟨s, hu⟩
  exact h s _ _ hu _ _ (.intro s hu)

theorem answer (a : α) : C.Mimics (pure a) (pure a) := fun _ _ hs => .answered hs

theorem halt (halt : Halt Fault) : C.Mimics (throw halt : Run S V σ α) (throw halt) :=
  fun _ _ hs => .halted hs

theorem modify (f : Session S V σ → Session S V σ)
    (hf : ∀ (s : Session S V σ) capacity u, f (s.twin capacity u) = (f s).twin capacity u) :
    C.Mimics (modify f) (modify f) := by
  rintro _ _ ⟨s, hu⟩
  have htwins := Twins.intro (C := C) (f s) hu
  rw [← hf, ← hf] at htwins
  exact .answered htwins

theorem map {x x' : Run S V σ α} (hx : C.Mimics x x') (f : α → β) :
    C.Mimics (f <$> x) (f <$> x') := by
  rw [map_eq_pure_bind, map_eq_pure_bind]
  exact hx.bind (fun _ => .answer _) fun a => answer (f a)

theorem rollback : C.Mimics Engine.rollback Engine.rollback := modify _ fun _ _ _ => rfl

theorem commit : C.Mimics Engine.commit Engine.commit := modify _ fun _ _ _ => rfl

theorem setFailed (failed : Bool) : C.Mimics (Engine.setFailed failed) (Engine.setFailed failed) :=
  modify _ fun _ _ _ => rfl

theorem count (f : Stats → Stats) : C.Mimics (Engine.count f) (Engine.count f) :=
  modify _ fun _ _ _ => rfl

theorem underflow (n : Nat) :
    C.Mimics (Engine.underflow n : Run S V σ α) (Engine.underflow n) :=
  get_bind fun _ _ _ _ => halt _

theorem within (a : Option α) :
    C.Mimics (Engine.within a : Run S V σ α) (Engine.within a) := by
  cases a with
  | none => exact halt _
  | some a => exact answer a

theorem topState : C.Mimics (Engine.topState : Run S V σ S) Engine.topState := by
  refine get_bind fun s u u' hu => ?_
  have htop : ∀ capacity (u : σ), (s.twin capacity u).stack.top? = s.stack.top? := fun _ _ => rfl
  rw [htop, htop]
  cases s.stack.top? with
  | some frame => exact answer _
  | none => exact underflow 1

theorem pop (n : Nat) : C.Mimics (Engine.pop n : Run S V σ Unit) (Engine.pop n) := by
  rintro _ _ ⟨s, hu⟩
  have hpop : ∀ capacity (u : σ), (s.twin capacity u).stack.pop n =
      (s.stack.pop n).map (Stack.resized capacity) := fun capacity _ => s.stack.pop_resized capacity n
  rw [Engine.pop_run, Engine.pop_run, hpop, hpop]
  cases s.stack.pop n with
  | ok stack => exact .answered (.intro { s with stack } hu)
  | error err => exact .halted (.intro s hu)

theorem popElements (n : Nat) :
    C.Mimics (Engine.popElements n : Run S V σ Unit) (Engine.popElements n) := by
  induction n with
  | zero => exact answer ()
  | succ n ih =>
    refine get_bind fun s u u' hu => ?_
    have htop : ∀ capacity (u : σ), (s.twin capacity u).stack.top? = s.stack.top? := fun _ _ => rfl
    rw [htop, htop]
    cases s.stack.top? with
    | some frame => exact (pop _).bind (fun _ => Engine.Keeps.popElements n) fun _ => ih
    | none => exact underflow 1

theorem take : C.Mimics (Engine.take : Run S V σ (Option V)) Engine.take := by
  rintro _ _ ⟨s, hu⟩
  have haccepted : ∀ capacity (u : σ), Engine.accepted? (s.twin capacity u) = Engine.accepted? s :=
    fun _ _ => rfl
  rw [Engine.take_run, Engine.take_run, haccepted, haccepted]
  cases Engine.accepted? s with
  | some value => exact .answered (.intro { s with result := none } hu)
  | none => exact .answered (.intro s hu)

end Mimics

namespace Fair

variable (h : C.Fair)

include h

theorem notify (notice : Notice S T P V) :
    C.Mimics (C.engine.notify notice) (C.other.notify notice) := by
  rintro _ _ ⟨s, hu⟩
  exact .answered (.intro s (h.told notice hu))

theorem look (token : T) : C.Mimics
    (get >>= fun s => C.engine.notify (.deciding s.stack token))
    (get >>= fun s => C.other.notify (.deciding s.stack token)) := by
  rintro _ _ ⟨s, hu⟩
  exact .answered (.intro s (h.deciding _ _ token hu))

theorem callProvider (production : P) (size : Nat) : C.Mimics
    (get >>= fun s => C.engine.callProvider production ⟨s.stack, size⟩)
    (get >>= fun s => C.other.callProvider production ⟨s.stack, size⟩) := by
  rintro _ _ @⟨s, u, u', hu⟩
  have hcontents : Args.contents ⟨s.stack.resized C.engine.config.capacity, size⟩ =
      Args.contents ⟨s.stack.resized C.config.capacity, size⟩ := by
    rw [Args.contents_resized, Args.contents_resized]
  obtain ⟨hanswer, hclients⟩ := h.called production hcontents hu
  show C.Tracks (C.engine.callProvider production _ _) (C.engine.callProvider production _ _)
  rw [Engine.callProvider, Engine.callProvider]
  dsimp only [Session.twin]
  revert hanswer hclients
  cases C.engine.provider.reduce production ⟨s.stack.resized C.engine.config.capacity, size⟩ u <;>
    cases C.engine.provider.reduce production ⟨s.stack.resized C.config.capacity, size⟩ u' <;>
    intro hanswer hclients <;> cases hanswer
  · exact .answered (.intro s hclients)
  · exact .halted (.intro s hclients)

theorem push (frame : Frame S V) : C.Mimics (C.engine.push frame) (C.other.push frame) := by
  rintro _ _ @⟨s, u, u', hu⟩
  by_cases hstate : C.engine.table.hasState frame.state = true
  · rw [C.engine.push_run frame _ hstate, C.other.push_run frame _ hstate]
    dsimp only [Session.twin]
    rcases Stack.hasRoom_or_full C.engine.config.capacity s.stack.depth with hroom | ⟨n, hn, hfull⟩
    · have hroom' : Stack.HasRoom C.config.capacity s.stack.depth := by
        rcases h.overflow with hsame | ⟨hroomier, -⟩
        · rwa [hsame]
        · exact hroomier.hasRoom hroom
      rw [s.stack.push_resized frame hroom, s.stack.push_resized frame hroom']
      exact .answered
        (.intro { s with stack := { s.stack with pending := s.stack.pending.put frame } } hu)
    · have hpush : ∀ capacity, capacity = some n →
          (s.stack.resized capacity).push frame = .error (.overflow n) :=
        fun _ hcapacity => Stack.push_of_full hcapacity hfull
      rw [hpush _ hn]
      rcases h.overflow with hsame | ⟨-, halarm⟩
      · rw [hpush _ (hsame.trans hn)]
        exact .answered (.intro (s.fail true) (h.told _ hu))
      · exact .alarmed (halarm _ u)
  · rw [C.engine.push_crash frame _ hstate, C.other.push_crash frame _ hstate]
    exact .halted (.intro s hu)

theorem notifyLift (n : Nat) : C.Mimics (C.engine.notifyLift n) (C.other.notifyLift n) := by
  refine .get_bind fun s u u' hu => ?_
  show C.Mimics (if s.stack.missing n = 0 then _ else _) (if s.stack.missing n = 0 then _ else _)
  split
  · exact .answer ()
  · exact h.notify _

omit h in
theorem setStack (stack : Stack (Frame S V)) :
    C.Mimics (Engine.setStack (stack.resized C.engine.config.capacity))
      (Engine.setStack (stack.resized C.config.capacity)) := by
  rintro _ _ ⟨s, hu⟩
  exact .answered (.intro { s with stack } hu)

theorem swap : C.Mimics C.engine.swap C.other.swap := by
  refine .get_bind fun s u u' hu => ?_
  have hswap : ∀ capacity (u : σ), (s.twin capacity u).stack.swap =
      s.stack.swap.map (Stack.resized capacity) := fun capacity _ => s.stack.swap_resized capacity
  rw [hswap, hswap]
  cases s.stack.swap with
  | ok stack =>
    exact (h.notifyLift 2).bind (fun _ => Engine.Keeps.setStack _) fun _ => setStack stack
  | error err => exact .halt _

theorem fold : C.Mimics C.engine.fold C.other.fold := by
  refine .get_bind fun s u u' hu => ?_
  have hmodify : ∀ capacity (u : σ) f, (s.twin capacity u).stack.modifyTop? f =
      (s.stack.modifyTop? f).map (Stack.resized capacity) :=
    fun capacity _ f => s.stack.modifyTop?_resized capacity f
  rw [hmodify, hmodify]
  cases s.stack.modifyTop? fun frame => { frame with folded := frame.folded + 1 } with
  | some stack =>
    exact (h.notifyLift 1).bind (fun _ => Engine.Keeps.setStack _) fun _ => setStack stack
  | none => exact .underflow 1

theorem goto (state : S) (lhs : N) :
    C.Mimics (C.engine.goto state lhs) (C.other.goto state lhs) := by
  show C.Mimics (C.engine.goto state lhs) (C.engine.goto state lhs)
  rw [Engine.goto]
  split
  · split
    · exact (h.notify _).bind (fun _ => .answer _) fun _ => .answer _
    · exact .halt _
  · exact .halt _

theorem pushGoto (lhs : N) (value : V) :
    C.Mimics (C.engine.pushGoto lhs value) (C.other.pushGoto lhs value) :=
  Mimics.topState.bind (fun state => (h.keeps.goto state lhs).bind fun _ => h.keeps.push _)
    fun state => (h.goto state lhs).bind (fun _ => h.keeps.push _) fun _ => h.push _

theorem unwindWithin (token : T) (steps : Nat) :
    C.Mimics (C.engine.unwindWithin token steps) (C.other.unwindWithin token steps) := by
  induction steps with
  | zero => exact .halt _
  | succ steps ih =>
    refine .get_bind fun s u u' hu => ?_
    have htop : ∀ capacity (u : σ), (s.twin capacity u).stack.top? = s.stack.top? :=
      fun _ _ => rfl
    rw [htop, htop]
    cases s.stack.top? with
    | none => exact (h.notify _).bind (fun _ => .answer _) fun _ => .answer _
    | some frame =>
      show C.Mimics (if C.engine.table.handlesError frame.state = true then _ else _)
        (if C.engine.table.handlesError frame.state = true then _ else _)
      split
      · exact (h.notify _).bind (fun _ => .answer _) fun _ => .answer _
      · exact (Mimics.popElements 1).bind (fun _ => h.keeps.unwindWithin token steps) fun _ => ih

theorem unwind (token : T) : C.Mimics (C.engine.unwind token) (C.other.unwind token) :=
  .get_bind fun _ _ _ _ => h.unwindWithin token _

variable [Inhabited V]

theorem cover (rule : Rule N) : C.Mimics (C.engine.cover rule) (C.other.cover rule) := by
  refine .get_bind fun s u u' hu => ?_
  have hextent : ∀ capacity (u : σ), extentBelow? (s.twin capacity u).stack
      (s.twin capacity u).stack.depth rule.size = extentBelow? s.stack s.stack.depth rule.size :=
    fun capacity _ => extentBelow?_resized capacity s.stack _ _
  dsimp only
  rw [hextent, hextent]
  cases extentBelow? s.stack s.stack.depth rule.size with
  | none => exact .underflow _
  | some extent =>
    exact (Mimics.within _).bind
      (fun below => (h.keeps.goto below.state rule.lhs).bind fun _ => h.keeps.push _)
      fun below => (h.goto below.state rule.lhs).bind (fun _ => h.keeps.push _) fun _ => h.push _

theorem applyRule (production : P) (rule : Rule N) :
    C.Mimics (C.engine.applyRule production rule) (C.other.applyRule production rule) := by
  have hpushGoto := h.keeps.pushGoto rule.lhs
  unfold Engine.applyRule
  split
  · have hreduce : ∀ value, C.Mimics
        (Engine.popElements rule.size >>= fun _ => C.engine.pushGoto rule.lhs value)
        (Engine.popElements rule.size >>= fun _ => C.other.pushGoto rule.lhs value) :=
      fun value => (Mimics.popElements _).bind (fun _ => hpushGoto value) fun _ =>
        h.pushGoto _ value
    exact (h.callProvider production rule.size).bind
      (fun value => (Engine.Keeps.popElements _).bind fun _ => hpushGoto value) hreduce
  · exact (Mimics.popElements _).bind (fun _ => hpushGoto _) fun _ => h.pushGoto _ _
  · exact h.cover rule
  · exact h.cover rule
  · exact h.cover rule
  · exact h.swap.bind (fun _ => h.keeps.fold) fun _ => h.fold
  · exact h.swap.bind
      (fun _ => (Engine.Keeps.pop 1).bind fun _ => h.keeps.swap.bind fun _ => h.keeps.fold)
      fun _ => (Mimics.pop 1).bind (fun _ => h.keeps.swap.bind fun _ => h.keeps.fold)
        fun _ => h.swap.bind (fun _ => h.keeps.fold) fun _ => h.fold

theorem reduce (production : P) (rule : Rule N) :
    C.Mimics (C.engine.reduce production rule) (C.other.reduce production rule) := by
  refine .get_bind fun s u u' hu => ?_
  have hextent : ∀ capacity (u : σ), extentBelow? (s.twin capacity u).stack
      (s.twin capacity u).stack.depth (rule.size - 1) =
        extentBelow? s.stack s.stack.depth (rule.size - 1) :=
    fun capacity _ => extentBelow?_resized capacity s.stack _ _
  dsimp only
  rw [hextent, hextent]
  by_cases hdisabled : (rule.reduction.isEbnf && !C.engine.config.ebnf) = true
  · rw [if_pos hdisabled]
    rcases h.ebnf with hsame | ⟨-, hexcused⟩
    · rw [show C.other.config.ebnf = C.engine.config.ebnf from hsame, if_pos hdisabled]
      exact .halt _
    · exact fun _ _ _ => .excused (hexcused _)
  · have hdisabled' : ¬ (rule.reduction.isEbnf && !C.other.config.ebnf) = true := by
      rcases h.ebnf with hsame | ⟨hebnf, -⟩
      · rwa [show C.other.config.ebnf = C.engine.config.ebnf from hsame]
      · rw [show C.other.config.ebnf = true from hebnf, Bool.not_true, Bool.and_false]
        exact Bool.false_ne_true
    rw [if_neg hdisabled, if_neg hdisabled']
    split
    · exact .halt _
    · split
      · exact .underflow _
      · exact h.applyRule production rule

theorem carryOut (token : T) (value : V) (state : S) :
    C.Mimics (C.engine.carryOut token value state) (C.other.carryOut token value state) := by
  have hcounted : ∀ f, Engine.Sustains (Engine.Kept fun c _ => C.Alarmed c)
      (Engine.count f >>= fun _ => get >>= fun s => pure s.failed : Run S V σ Bool) :=
    fun f => (Engine.Keeps.count f).bind fun _ => .get_bind fun s => .answer _
  unfold Engine.carryOut
  rw [show C.other.table = C.engine.table from rfl]
  split
  · refine (h.notify _).bind (fun _ => (Engine.Keeps.count _).bind fun _ =>
      (h.keeps.push _).bind fun _ => .answer _) fun _ => ?_
    refine (Mimics.count _).bind (fun _ => (h.keeps.push _).bind fun _ => .answer _) fun _ => ?_
    exact (h.push _).bind (fun _ => .answer _) fun _ => .answer _
  · refine (Mimics.within _).bind (fun rule => (h.keeps.notify _).bind fun _ =>
      (h.keeps.reduce _ rule).bind fun _ => hcounted _) fun rule => ?_
    refine (h.notify _).bind (fun _ => (h.keeps.reduce _ rule).bind fun _ => hcounted _)
      fun _ => ?_
    refine (h.reduce _ rule).bind (fun _ => hcounted _) fun _ => ?_
    refine (Mimics.count _).bind (fun _ => .get_bind fun s => .answer _) fun _ => ?_
    exact .get_bind fun s u u' hu => .answer s.failed
  · refine (h.notify _).bind (fun _ _ hs => hs) fun _ => ?_
    exact (Mimics.modify _ fun _ _ _ => rfl).bind (fun _ => .answer _) fun _ => .answer _
  · refine (Mimics.count _).bind
      (fun _ s hs => @h.keeps.refused _ s.client s.failed hs) fun _ => ?_
    refine (h.notify _).bind (fun _ => fun _ hs => hs) fun _ => ?_
    exact (Mimics.setFailed true).bind (fun _ => .answer _) fun _ => .answer _

theorem decideToken (token : T) (value : V) :
    C.Mimics (C.engine.decideToken token value) (C.other.decideToken token value) := by
  rw [Engine.decideToken_eq, Engine.decideToken_eq]
  have hcarryOut := h.keeps.carryOut token value
  refine (h.look token).bind (fun _ => Engine.Sustains.topState.bind hcarryOut) fun _ => ?_
  exact Mimics.topState.bind hcarryOut fun state => h.carryOut token value state

theorem driveWithin (token : T) (value : V) (steps : Nat) :
    C.Mimics (C.engine.driveWithin token value steps) (C.other.driveWithin token value steps) := by
  induction steps with
  | zero => exact .halt _
  | succ steps ih =>
    have hrest : ∀ settled, Engine.Sustains (Engine.Kept fun c _ => C.Alarmed c)
        (if settled = true then pure () else C.engine.driveWithin token value steps) := by
      intro settled
      split
      · exact .answer ()
      · exact h.keeps.driveWithin token value steps
    refine (h.decideToken token value).bind hrest fun settled => ?_
    split
    · exact .answer ()
    · exact ih

theorem drive (token : T) (value : V) :
    C.Mimics (C.engine.drive token value) (C.other.drive token value) :=
  .get_bind fun _ _ _ _ => h.driveWithin token value _

variable [DecidableEq T]

section Recovery

omit [Inhabited V] in
theorem resolve (hend : C.config.endToken = C.engine.config.endToken) (token : T) :
    C.Mimics (C.engine.resolve token) (C.other.resolve token) := by
  refine .get_bind fun s u u' hu => ?_
  rw [show C.other.config.endToken = C.engine.config.endToken from hend]
  show C.Mimics (if s.failed = true then _ else _) (if s.failed = true then _ else _)
  split
  · refine Mimics.rollback.bind (fun _ => ?_) fun _ => ?_
    · split
      · exact h.keeps.notify _
      · exact (h.keeps.notify _).bind fun _ => (Engine.Keeps.count _).bind fun _ =>
          Engine.setFailed_keeps false
    · split
      · exact h.notify _
      · refine (h.notify _).bind (fun _ => (Engine.Keeps.count _).bind fun _ =>
          Engine.setFailed_keeps false) fun _ => ?_
        exact (Mimics.count _).bind (fun _ => Engine.setFailed_keeps false) fun _ =>
          Mimics.setFailed false
  · exact Mimics.commit

theorem repost (hend : C.config.endToken = C.engine.config.endToken) (token : T) (value : V) :
    C.Mimics (C.engine.repost token value) (C.other.repost token value) := by
  have hresolve := Engine.resolve_keeps h.keeps token
  refine (h.notify _).bind (fun _ => (h.keeps.drive token value).bind fun _ => hresolve) fun _ => ?_
  exact (h.drive token value).bind (fun _ => hresolve) fun _ => h.resolve hend token

theorem resume (hend : C.config.endToken = C.engine.config.endToken) (token : T) (value : V)
    (recovery : T) :
    C.Mimics (C.engine.resume token value recovery) (C.other.resume token value recovery) := by
  refine .get_bind fun s u u' hu => ?_
  show C.Mimics (if s.failed = true then _ else _) (if s.failed = true then _ else _)
  split
  · exact (h.notify _).bind (fun _ => Engine.Keeps.rollback) fun _ => Mimics.rollback
  · exact Mimics.commit.bind (fun _ => Engine.repost_keeps h.keeps token value) fun _ =>
      h.repost hend token value

theorem regain (hend : C.config.endToken = C.engine.config.endToken) (token : T) (value : V)
    (recovery : T) (found : Bool) : C.Mimics (C.engine.regain token value recovery found)
      (C.other.regain token value recovery found) := by
  unfold Engine.regain
  split
  · exact (h.drive recovery default).bind
      (fun _ => Engine.resume_keeps h.keeps token value recovery) fun _ =>
        h.resume hend token value recovery
  · exact Mimics.rollback.bind (fun _ => Engine.setFailed_keeps true) fun _ => Mimics.setFailed true

theorem recover (hend : C.config.endToken = C.engine.config.endToken) (token : T) (value : V)
    (recovery : T) : C.Mimics (C.engine.recover token value recovery)
      (C.other.recover token value recovery) := by
  have hregain := Engine.regain_keeps h.keeps token value recovery
  have hunwind := (h.keeps.unwind recovery).bind hregain
  refine (Mimics.count _).bind (fun _ => Engine.Keeps.rollback.bind fun _ =>
    (Engine.setFailed_keeps false).bind fun _ => hunwind) fun _ => ?_
  refine Mimics.rollback.bind (fun _ => (Engine.setFailed_keeps false).bind fun _ => hunwind)
    fun _ => ?_
  refine (Mimics.setFailed false).bind (fun _ => hunwind) fun _ => ?_
  exact (h.unwind recovery).bind hregain (h.regain hend token value recovery)

end Recovery

omit [Inhabited V] [DecidableEq T] in
theorem failing (halarm : (∀ err u, C.Alarmed (C.engine.provider.notify (.stackOverflow err) u)) ∧
    ∀ err u, C.Alarmed (C.engine.provider.notify (.syntaxError err) u)) :
    C.engine.Keeps fun c failed => failed = true → C.Alarmed c where
  told notice _ failed hc hfailed := @h.keeps.told notice _ failed (hc hfailed)
  called production args _ failed hc hfailed := @h.keeps.called production args _ failed (hc hfailed)
  overflowed err c _ _ _ := halarm.1 err c
  refused err c _ _ _ := halarm.2 err c

theorem respond (token : T) (value : V) {t t' : Session S V σ} (ht : C.Twins t t')
    (hfailed : (C.config.recovery = C.engine.config.recovery ∧
        C.config.endToken = C.engine.config.endToken) ∨
      (t.failed = true → C.Alarmed t.client)) :
    C.Tracks (C.engine.respond token value t) (C.other.respond token value t') := by
  have hsame : t'.failed = t.failed := by
    cases ht
    rfl
  cases hopen : t.failed with
  | false =>
    rw [C.engine.respond_of_open token value hopen,
      C.other.respond_of_open token value (hsame.trans hopen)]
    exact Mimics.commit _ _ ht
  | true =>
    rcases hfailed with ⟨hrecovery, hend⟩ | halarm
    · rw [C.engine.respond_of_failed token value hopen,
        C.other.respond_of_failed token value (hsame.trans hopen),
        show C.other.config.recovery = C.engine.config.recovery from hrecovery]
      cases C.engine.config.recovery with
      | none => exact Mimics.rollback _ _ ht
      | some recovery => exact h.recover hend token value recovery _ _ ht
    · exact .alarmed (Engine.respond_keeps h.keeps token value t (halarm hopen))

theorem settle (token : T) (value : V) {s s' : Session S V σ} (hs : C.Twins s s')
    (hopen : s.failed = false) :
    C.Tracks (C.engine.settle token value s) (C.other.settle token value s') := by
  have hopened : C.Twins s.opened s'.opened := by
    obtain ⟨s, hu⟩ := hs
    exact .intro s.opened hu
  have hdrive := h.drive token value _ _ hopened
  have hreason : (C.config.recovery = C.engine.config.recovery ∧
      C.config.endToken = C.engine.config.endToken) ∨
      ((Engine.final (C.engine.drive token value s.opened)).failed = true →
        C.Alarmed (Engine.final (C.engine.drive token value s.opened)).client) := by
    refine h.recovery.imp_right fun halarm => ?_
    refine (h.failing halarm).drive token value s.opened fun hfailed => ?_
    exact absurd (hopen.symm.trans hfailed) Bool.false_ne_true
  rw [Engine.settle_eq, Engine.settle_eq]
  refine hdrive.bind (fun _ => Engine.respond_keeps h.keeps token value) fun _ t t' hrun ht => ?_
  rw [hrun] at hreason
  exact h.respond token value ht hreason

omit [Inhabited V] [DecidableEq T] in
theorem guarded {body body' : Run S V σ Unit} {s s' : Session S V σ}
    (hbody : C.Tracks (body s) (body' s')) :
    C.Tracks (C.engine.guarded body s) (C.other.guarded body' s') := by
  rw [Engine.guarded_run, Engine.guarded_run]
  generalize body s = r at hbody
  generalize body' s' = r' at hbody
  cases hbody with
  | answered ht => exact .answered ht
  | excused hexcused => exact .excused hexcused
  | @halted halt _ _ ht =>
    obtain ⟨s, hu⟩ := ht
    cases halt with
    | raised f =>
      exact .halted (.intro ((s.tell C.engine (.aborting f)).rollback.fail true)
        (h.told (.aborting f) hu))
    | crash => exact .halted (.intro s hu)
    | exhausted => exact .halted (.intro s hu)
  | alarmed halarmed =>
    rcases r with ⟨_, t⟩ | ⟨f | _ | _, t⟩
    · exact .alarmed halarmed
    · exact .alarmed (h.keeps.notify (.aborting f) t halarmed)
    · exact .alarmed halarmed
    · exact .alarmed halarmed

theorem post (token : T) (value : V) :
    C.Mimics (C.engine.post token value) (C.other.post token value) := by
  rintro _ _ @⟨s, u, u', hu⟩
  rw [Engine.post, Engine.post, Engine.get_bind, Engine.get_bind]
  have hclosed : ∀ capacity (u : σ), (s.twin capacity u).closed = s.closed := fun _ _ => rfl
  rw [hclosed, hclosed]
  split
  case isTrue => exact .halted (.intro s hu)
  case isFalse hclosed =>
    have hopen : s.failed = false := by
      rw [Session.closed, Bool.not_eq_true, Bool.or_eq_false_iff] at hclosed
      exact hclosed.2
    have hsettle := h.settle token value (.intro s hu) hopen
    refine (h.guarded hsettle).bind (fun _ => .get_bind fun _ => .answer _) fun _ t t' _ ht => ?_
    exact Mimics.get_bind (fun s _ _ _ => .answer s.closed) t t' ht

omit [DecidableEq T] in
theorem reset : C.Mimics C.engine.reset C.other.reset := by
  rintro _ _ @⟨s, u, u', hu⟩
  have hpush := h.push ⟨C.engine.table.start, default, 0⟩ _ _ (.intro (Engine.cleared s) hu)
  rw [Engine.reset_eq, Engine.reset_eq]
  exact hpush.bind (fun _ => Engine.Keeps.commit) fun _ t t' _ ht => Mimics.commit t t' ht

theorem postAll (tokens : List (T × V)) :
    C.Mimics (C.engine.postAll tokens) (C.other.postAll tokens) := by
  induction tokens with
  | nil => exact .answer false
  | cons posted rest ih =>
    refine (h.post posted.1 posted.2).bind (fun closed => ?_) fun closed => ?_
    · split
      · exact .answer true
      · exact Engine.postAll_keeps h.keeps rest
    · split
      · exact .answer true
      · exact ih

theorem parse (tokens : List (T × V)) :
    C.Mimics (C.engine.parse tokens) (C.other.parse tokens) := by
  refine h.reset.bind (fun _ => ?_) fun _ => ?_
  · exact (Engine.postAll_keeps h.keeps tokens).bind fun _ => Engine.Keeps.take
  · exact (h.postAll tokens).bind (fun _ => Engine.Keeps.take) fun _ => Mimics.take

theorem perform (op : Engine.Op T V) : C.Mimics (C.engine.perform op) (C.other.perform op) := by
  cases op with
  | post token value => exact (h.post token value).map _
  | postAll tokens => exact (h.postAll tokens).map _
  | parse tokens => exact (h.parse tokens).map _
  | reset => exact h.reset.bind (fun _ => .answer _) fun _ => .answer _
  | accepted => exact .get_bind fun s _ _ _ => .answer (Engine.Answer.value (Engine.accepted? s))
  | take => exact Mimics.take.map _

end Fair

end Comparison

end ShiftReduce
