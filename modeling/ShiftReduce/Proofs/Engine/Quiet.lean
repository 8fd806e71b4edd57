import ShiftReduce.Proofs.Engine.Bounded

namespace ShiftReduce

def Notice.isInner {S T P V : Type} : Notice S T P V → Bool
  | .entering _ | .lifting _ => true
  | _ => false

namespace Engine

variable {S T N P V σ α β γ : Type} {e : Engine S T N P V σ} {observe : Session S V σ → α} {a : α}

structure Blind (e : Engine S T N P V σ) (observe : Session S V σ → α) : Prop where
  stack : ∀ s stack, observe { s with stack } = observe s
  told : ∀ (notice : Notice S T P V) s, notice.isInner = true →
    observe (s.tell e notice) = observe s
  called : ∀ production args s, observe (final (e.callProvider production args s)) = observe s

inductive Hushed (e : Engine S T N P V σ) (observe : Session S V σ → α) (a : α) :
    EStateM.Result (Halt Fault) (Session S V σ) β → Prop
  | unseen {r} : observe (final r) = a → Hushed e observe a r
  | crowded {b u err} : observe u = a → u.stack.capacity ≠ none →
      Hushed e observe a (.ok b ((u.tell e (.stackOverflow err)).fail true))

def Hushes (e : Engine S T N P V σ) (observe : Session S V σ → α) (a : α) (x : Run S V σ β) :
    Prop := ∀ s, observe s = a → Hushed e observe a (x s)

theorem Sustains.hushes {x : Run S V σ β} (hx : Sustains (observe · = a) x) :
    Hushes e observe a x := fun s hs => .unseen (hx s hs)

theorem Sustains.comes {P : Session S V σ → Prop} {x : Run S V σ β} {f : β → Run S V σ γ}
    {R : EStateM.Result (Halt Fault) (Session S V σ) γ → Prop} {s : Session S V σ}
    (hx : Sustains P x) (hs : P s) (hhalted : ∀ halt t, P t → R (.error halt t))
    (hf : ∀ b t, P t → R (f b t)) : R ((x >>= f) s) := by
  have hleft := hx s hs
  cases h : x s with
  | ok b t =>
    rw [h] at hleft
    rw [bind_of_ok h]
    exact hf b t hleft
  | error halt t =>
    rw [h] at hleft
    rw [bind_of_error h]
    exact hhalted halt t hleft

theorem Hushes.after {x : Run S V σ β} {f : β → Run S V σ γ} (hx : Sustains (observe · = a) x)
    (hf : ∀ b, Hushes e observe a (f b)) : Hushes e observe a (x >>= f) :=
  fun _ hs => hx.comes hs (fun _ _ ht => .unseen ht) fun b t ht => hf b t ht

theorem Hushes.get_bind {f : Session S V σ → Run S V σ β} (hf : ∀ s, Hushes e observe a (f s)) :
    Hushes e observe a (get >>= f) := fun s => hf s s

namespace Blind

variable (h : Blind e observe)

include h

theorem tell {notice : Notice S T P V} (hnotice : notice.isInner = true) :
    Sustains (observe · = a) (e.notify notice) :=
  fun s hs => (h.told notice s hnotice).trans hs

theorem call (production : P) (args : Args S V) :
    Sustains (observe · = a) (e.callProvider production args) :=
  fun s hs => (h.called production args s).trans hs

theorem push_hushes (frame : Frame S V) : Hushes e observe a (e.push frame) := by
  intro s hs
  by_cases hstate : e.table.hasState frame.state
  · rw [e.push_run frame s hstate]
    rcases Stack.hasRoom_or_full s.stack.capacity s.stack.depth with hroom | ⟨n, hn, hfull⟩
    · obtain ⟨stack, hpush, -⟩ := Stack.push_of_room (a := frame) hroom
      rw [hpush]
      exact .unseen ((h.stack s stack).trans hs)
    · rw [Stack.push_of_full hn hfull]
      exact .crowded hs (by simp [hn])
  · rw [e.push_crash frame s hstate]
    exact .unseen hs

theorem pop (n : Nat) : Sustains (observe · = a) (Engine.pop n : Run S V σ Unit) := by
  intro s hs
  rw [pop_run]
  cases s.stack.pop n with
  | ok stack => exact (h.stack s stack).trans hs
  | error err => exact hs

theorem popElements (n : Nat) :
    Sustains (observe · = a) (Engine.popElements n : Run S V σ Unit) := by
  induction n with
  | zero => exact .answer ()
  | succ n ih =>
    apply Sustains.get_bind
    intro s
    split
    · exact (h.pop _).bind fun _ => ih
    · exact .underflow 1

theorem lifting (n : Nat) {s : Session S V σ} (hs : observe s = a) :
    observe (s.lifting e n) = a := by
  rw [Session.lifting]
  split
  · exact hs
  · exact (h.told _ s rfl).trans hs

theorem swap : Sustains (observe · = a) e.swap := by
  intro s hs
  rw [e.swap_run]
  cases s.stack.swap with
  | ok stack => exact (h.stack _ stack).trans (h.lifting 2 hs)
  | error err => exact hs

theorem fold : Sustains (observe · = a) e.fold := by
  intro s hs
  rw [e.fold_run]
  cases s.stack.modifyTop? fun frame => { frame with folded := frame.folded + 1 } with
  | some stack => exact (h.stack _ stack).trans (h.lifting 1 hs)
  | none => exact hs

theorem goto (state : S) (lhs : N) : Sustains (observe · = a) (e.goto state lhs) := by
  rw [Engine.goto]
  split
  · split
    · exact (h.tell rfl).bind fun _ => .answer _
    · exact .halt _
  · exact .halt _

theorem pushGoto (lhs : N) (value : V) : Hushes e observe a (e.pushGoto lhs value) :=
  .after Sustains.topState fun state => .after (h.goto state lhs) fun _ => h.push_hushes _

variable [Inhabited V]

theorem cover (rule : Rule N) : Hushes e observe a (e.cover rule) := by
  apply Hushes.get_bind
  intro s
  dsimp only
  split
  · exact (Sustains.underflow _).hushes
  · exact .after (Sustains.within _) fun below =>
      .after (h.goto below.state rule.lhs) fun _ => h.push_hushes _

theorem applyRule (production : P) (rule : Rule N) :
    Hushes e observe a (e.applyRule production rule) := by
  rw [Engine.applyRule]
  split
  · exact .get_bind fun s => .after (h.call production _) fun value =>
      .after (h.popElements _) fun _ => h.pushGoto _ value
  · exact .after (h.popElements _) fun _ => h.pushGoto _ _
  · exact h.cover rule
  · exact h.cover rule
  · exact h.cover rule
  · exact (h.swap.bind fun _ => h.fold).hushes
  · exact (h.swap.bind fun _ => (h.pop 1).bind fun _ => h.swap.bind fun _ => h.fold).hushes

theorem reduce_hushes (production : P) (rule : Rule N) :
    Hushes e observe a (e.reduce production rule) := by
  apply Hushes.get_bind
  intro s
  dsimp only
  split
  · exact (Sustains.halt _).hushes
  split
  · exact (Sustains.halt _).hushes
  split
  · exact (Sustains.underflow _).hushes
  · exact h.applyRule production rule

end Blind

def Shown (observe : Session S V σ → α) (a : α) (s : Session S V σ) : Prop :=
  s.stack.capacity = none ∧ observe s = a

theorem observe_of_ok {x : Run S V σ β} {b : β} {s t : Session S V σ}
    (hx : Sustains (Shown observe (observe s)) x) (h : x s = .ok b t)
    (hcapacity : s.stack.capacity = none) : observe t = observe s := by
  have hshown := hx s ⟨hcapacity, rfl⟩
  rw [h] at hshown
  exact hshown.2

theorem Hushes.shown {x : Run S V σ β} (hx : Hushes e observe a x) (hbase : KeepsBase x) :
    Sustains (Shown observe a) x := by
  intro s hs
  have hcapacity := (hbase s).capacity_eq.trans hs.1
  have hhushed := hx s hs.2
  revert hcapacity hhushed
  generalize x s = r
  intro hcapacity hhushed
  cases hhushed with
  | unseen ha => exact ⟨hcapacity, ha⟩
  | crowded _ hbounded => exact absurd hcapacity hbounded

namespace Blind

variable (h : Blind e observe)

include h

theorem push (frame : Frame S V) : Sustains (Shown observe a) (e.push frame) :=
  (h.push_hushes frame).shown (KeepsBase.push e frame)

theorem reduce [Inhabited V] (production : P) (rule : Rule N) :
    Sustains (Shown observe a) (e.reduce production rule) :=
  (h.reduce_hushes production rule).shown (KeepsBase.reduce e production rule)

end Blind

end Engine

end ShiftReduce
