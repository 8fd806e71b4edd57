import ShiftReduce.Proofs.Engine.Founded
import ShiftReduce.Proofs.Engine.Client
import ShiftReduce.Proofs.Frame.Extent

namespace ShiftReduce

variable {S T N P V σ α β : Type}

/-- From a declared state the table leads to declared states, and it reduces by declared rules. -/
structure Table.Closed (table : Table S T N P) : Prop where
  start : table.hasState table.start = true
  shift : ∀ {state token next}, table.hasState state = true →
    table.action state token = .shift next → table.hasState next = true
  reduce : ∀ {state token production}, table.hasState state = true →
    table.action state token = .reduce production → ∃ rule, table.rule? production = some rule
  goto : ∀ {state lhs next}, table.hasState state = true → table.goto state lhs = some next →
    table.hasState next = true
  lhs : ∀ {production rule}, table.rule? production = some rule →
    table.hasNonterminal rule.lhs = true

namespace Engine

def Careful (e : Engine S T N P V σ) : Prop :=
  ∀ {production rule args c c'}, e.table.rule? production = some rule →
    rule.reduction = .action → args.size = rule.size → args.Readable →
    e.provider.reduce production args c ≠ .error .crash c'

/-- Every frame, visible or to be brought back, has a declared state and is where the stack looks
for it. -/
structure Intact (e : Engine S T N P V σ) (s : Session S V σ) : Prop where
  based : s.stack.Based
  base : ∀ frame ∈ s.stack.base.items, e.table.hasState frame.state = true
  frames : ∀ frame ∈ s.stack.frames, e.table.hasState frame.state = true

namespace Intact

variable {e : Engine S T N P V σ} {s t : Session S V σ}

theorem of_stack (h : Intact e s) (hstack : t.stack = s.stack) : Intact e t := by
  constructor <;> rw [hstack]
  · exact h.based
  · exact h.base
  · exact h.frames

theorem of_sameBase (h : Intact e s) (hbase : SameBase s t)
    (hkept : t.stack.kept.items <:+ s.stack.kept.items)
    (hframes : ∀ frame ∈ t.stack.frames, e.table.hasState frame.state = true) : Intact e t := by
  refine ⟨h.based.of_kept hbase.base_eq hkept, ?_, hframes⟩
  rw [hbase.base_eq]
  exact h.base

theorem of_empty {capacity : Option Nat} (h : s.stack = .empty capacity) : Intact e s := by
  constructor <;> rw [h]
  · exact List.suffix_rfl
  · exact nofun
  · exact nofun

theorem rollback (h : Intact e s) : Intact e s.rollback := ⟨.rollback _, h.base, h.base⟩

theorem opened (h : Intact e s) : Intact e s.opened := h.rollback.of_stack rfl

theorem reopened (h : Intact e s) : Intact e s.reopened := h.rollback.of_stack rfl

theorem commit (h : Intact e s) : Intact e s.commit := ⟨.commit _, h.frames, h.frames⟩

end Intact

inductive Safe (e : Engine S T N P V σ) (Q : α → Prop) :
    EStateM.Result (Halt Fault) (Session S V σ) α → Prop
  | answered {a s} : Intact e s → Q a → Safe e Q (.ok a s)
  | raised {f s} : Intact e s → Safe e Q (.error (.raised f) s)
  | exhausted {s} : Intact e s → Safe e Q (.error .exhausted s)

def Safely (e : Engine S T N P V σ) (Q : α → Prop) (x : Run S V σ α) : Prop :=
  ∀ s, Intact e s → Safe e Q (x s)

section Sequence

variable {e : Engine S T N P V σ} {Q : α → Prop} {R : β → Prop} {x : Run S V σ α}
  {f : α → Run S V σ β} {s : Session S V σ}

theorem Safe.bind (hx : Safe e Q (x s)) (hf : ∀ a, Q a → Safely e R (f a)) :
    Safe e R ((x >>= f) s) := by
  cases hrun : x s with
  | ok a t =>
    rw [hrun] at hx
    rw [bind_of_ok hrun]
    cases hx with
    | answered ht ha => exact hf a ha t ht
  | error halt t =>
    rw [hrun] at hx
    rw [bind_of_error hrun]
    cases hx with
    | raised ht => exact .raised ht
    | exhausted ht => exact .exhausted ht

theorem Safe.final {r : EStateM.Result (Halt Fault) (Session S V σ) α} (h : Safe e Q r) :
    Intact e (final r) := by
  cases h with
  | answered ht => exact ht
  | raised ht => exact ht
  | exhausted ht => exact ht

namespace Safely

theorem bind (hx : Safely e Q x) (hf : ∀ a, Q a → Safely e R (f a)) : Safely e R (x >>= f) :=
  fun s hs => (hx s hs).bind hf

theorem get_bind {f : Session S V σ → Run S V σ β} (hf : ∀ s, Safely e R (f s)) :
    Safely e R (get >>= f) := fun s hs => hf s s hs

theorem answer {a : α} (ha : Q a) : Safely e Q (pure a : Run S V σ α) :=
  fun _ hs => .answered hs ha

theorem fault (f : Fault) : Safely e Q (Engine.fault f : Run S V σ α) := fun _ hs => .raised hs

theorem underflow (n : Nat) : Safely e Q (Engine.underflow n : Run S V σ α) :=
  fun _ hs => .raised hs

theorem within {o : Option α} {a : α} (h : o = some a) : Safely e (· = a) (Engine.within o) := by
  rw [h]
  exact answer rfl

end Safely

end Sequence

section Steps

variable {e : Engine S T N P V σ}

namespace Safely

theorem notify (notice : Notice S T P V) : Safely e (fun _ => True) (e.notify notice) :=
  fun _ hs => .answered (hs.of_stack rfl) trivial

theorem count (f : Stats → Stats) : Safely e (fun _ => True) (Engine.count f) :=
  fun _ hs => .answered (hs.of_stack rfl) trivial

theorem setFailed (failed : Bool) : Safely e (fun _ => True) (Engine.setFailed failed) :=
  fun _ hs => .answered (hs.of_stack rfl) trivial

theorem rollback : Safely e (fun _ => True) Engine.rollback :=
  fun _ hs => .answered hs.rollback trivial

theorem commit : Safely e (fun _ => True) Engine.commit := fun _ hs => .answered hs.commit trivial

theorem topState : Safely e (fun state => e.table.hasState state = true) Engine.topState := by
  intro s hs
  cases hframes : s.stack.frames with
  | nil =>
    rw [topState_bare hframes]
    exact .raised hs
  | cons frame fs =>
    rw [topState_run hframes]
    exact .answered hs (hs.frames frame (hframes ▸ List.mem_cons_self))

theorem pop (n : Nat) : Safely e (fun _ => True) (Engine.pop n) := by
  intro s hs
  rw [pop_run]
  rcases Nat.lt_or_ge s.stack.depth n with hlt | hle
  · rw [Stack.pop_of_lt hlt]
    exact .raised hs
  · obtain ⟨stack, hpop, hstack⟩ := Stack.pop_of_le hle
    rw [hpop]
    refine .answered (hs.of_sameBase (.of_became hstack) (Stack.kept_of_pop hpop)
      fun frame hmem => ?_) trivial
    rw [hstack.frames_eq] at hmem
    exact hs.frames frame (List.mem_of_mem_drop hmem)

theorem popElements (n : Nat) : Safely e (fun _ => True) (Engine.popElements n) := by
  induction n with
  | zero => exact answer trivial
  | succ n ih =>
    refine get_bind fun s => ?_
    split
    · exact (pop _).bind fun _ _ => ih
    · exact underflow 1

theorem push {frame : Frame S V} (hframe : e.table.hasState frame.state = true) :
    Safely e (fun _ => True) (e.push frame) := by
  intro s hs
  rw [e.push_run frame s hframe]
  rcases Stack.hasRoom_or_full s.stack.capacity s.stack.depth with hroom | ⟨n, hn, hfull⟩
  · obtain ⟨stack, hpush, hstack⟩ := Stack.push_of_room (a := frame) hroom
    have hkept : stack.kept.items <:+ s.stack.kept.items :=
      Stack.kept_of_push hpush ▸ List.suffix_rfl
    rw [hpush]
    refine .answered (hs.of_sameBase (.of_became hstack) hkept ?_) trivial
    rw [hstack.frames_eq]
    exact List.forall_mem_cons.mpr ⟨hframe, hs.frames⟩
  · rw [Stack.push_of_full hn hfull]
    exact .answered (hs.of_stack rfl) trivial

theorem swap : Safely e (fun _ => True) e.swap := by
  intro s hs
  rcases Nat.lt_or_ge s.stack.depth 2 with hlt | hle
  · rw [e.swap_run, Stack.swap_of_lt hlt]
    exact .raised hs
  · match hframes : s.stack.frames with
    | a :: b :: fs =>
      obtain ⟨stack, hswap, hstack⟩ := Stack.swap_of_cons hframes
      rw [e.swap_run, hswap]
      refine .answered (hs.of_sameBase ⟨hstack.base_eq, hstack.capacity_eq⟩
        (Stack.kept_of_swap hswap) fun frame hmem => hs.frames frame ?_) trivial
      rw [hstack.frames_eq] at hmem
      rw [hframes]
      exact (List.Perm.swap a b fs).mem_iff.mp hmem
    | [] | [_] =>
      rw [← Stack.length_frames, hframes] at hle
      simp at hle

theorem fold : Safely e (fun _ => True) e.fold := by
  intro s hs
  cases hframes : s.stack.frames with
  | nil =>
    rw [e.fold_run, Stack.modifyTop?_of_nil hframes]
    exact underflow 1 s hs
  | cons frame fs =>
    obtain ⟨stack, hmodify, hstack⟩ := Stack.modifyTop?_of_cons
      (f := fun frame : Frame S V => { frame with folded := frame.folded + 1 }) hframes
    have hall := hs.frames
    rw [hframes] at hall
    obtain ⟨hframe, hfs⟩ := List.forall_mem_cons.mp hall
    rw [e.fold_run, hmodify]
    refine .answered (hs.of_sameBase ⟨hstack.base_eq, hstack.capacity_eq⟩
      (Stack.kept_of_modifyTop? hmodify) ?_) trivial
    rw [hstack.frames_eq]
    exact List.forall_mem_cons.mpr ⟨hframe, hfs⟩

theorem goto (htable : e.table.Closed) {state : S} {lhs : N}
    (hstate : e.table.hasState state = true) (hlhs : e.table.hasNonterminal lhs = true) :
    Safely e (fun next => e.table.hasState next = true) (e.goto state lhs) := by
  rw [Engine.goto, if_pos hlhs]
  cases hgoto : e.table.goto state lhs with
  | some next => exact (notify _).bind fun _ _ => answer (htable.goto hstate hgoto)
  | none => exact fault _

theorem unwindWithin (token : T) (steps : Nat) :
    Safely e (fun _ => True) (e.unwindWithin token steps) := by
  induction steps with
  | zero => exact fun _ hs => .exhausted hs
  | succ steps ih =>
    refine get_bind fun s => ?_
    split
    · exact (notify _).bind fun _ _ => answer trivial
    · split
      · exact (notify _).bind fun _ _ => answer trivial
      · exact (popElements 1).bind fun _ _ => ih

theorem unwind (token : T) : Safely e (fun _ => True) (e.unwind token) :=
  get_bind fun _ => unwindWithin token _

theorem pushGoto (htable : e.table.Closed) {lhs : N} (value : V)
    (hlhs : e.table.hasNonterminal lhs = true) :
    Safely e (fun _ => True) (e.pushGoto lhs value) :=
  topState.bind fun _ hstate => (goto htable hstate hlhs).bind fun _ hnext => push hnext

theorem inTurn {xs : List (Run S V σ Unit)} (h : ∀ x ∈ xs, Safely e (fun _ => True) x) :
    Safely e (fun _ => True) (Engine.inTurn xs) := by
  induction xs with
  | nil => exact answer trivial
  | cons x xs ih =>
    obtain ⟨hx, hxs⟩ := List.forall_mem_cons.mp h
    exact hx.bind fun _ _ => ih hxs

end Safely

end Steps

section Driving

variable [Inhabited V] {e : Engine S T N P V σ} (htable : e.table.Closed) (hcareful : e.Careful)

namespace Safely

include htable

theorem cover {rule : Rule N} (hlhs : e.table.hasNonterminal rule.lhs = true) :
    Safely e (fun _ => True) (e.cover rule) := by
  intro s hs
  rw [Engine.cover, Engine.get_bind]
  cases hextent : extentBelow? s.stack s.stack.depth rule.size with
  | none => exact underflow _ s hs
  | some extent =>
    obtain ⟨-, hstop⟩ := extentBelow?_le hextent (Nat.le_refl _)
    obtain ⟨below, hmem, hbelow⟩ := Stack.exists_nth? hstop
    refine (within hbelow).bind (fun frame hframe => ?_) s hs
    rw [hframe]
    exact (goto htable (hs.frames below hmem) hlhs).bind fun _ hnext => push hnext

variable {production : P} {rule : Rule N} {s : Session S V σ}

theorem write (hlhs : e.table.hasNonterminal rule.lhs = true) {value : V} {x : Run S V σ Unit}
    (hx : x ∈ e.writes rule value) : Safely e (fun _ => True) x := by
  rw [writes] at hx
  cases hreduction : rule.reduction with
  | action | nothing =>
    simp only [hreduction, List.mem_append, List.mem_replicate, List.mem_singleton] at hx
    rcases hx with ⟨-, rfl⟩ | rfl
    · exact popElements 1
    · exact pushGoto htable value hlhs
  | seqHead | optNothing | optJust =>
    simp only [hreduction, List.mem_singleton] at hx
    rw [hx]
    exact cover htable hlhs
  | seqTrail =>
    simp only [hreduction, List.mem_cons, List.not_mem_nil, or_false] at hx
    rcases hx with rfl | rfl
    · exact swap
    · exact fold
  | seqTrail2 =>
    simp only [hreduction, List.mem_cons, List.not_mem_nil, or_false] at hx
    rcases hx with rfl | rfl | rfl | rfl
    · exact swap
    · exact pop 1
    · exact swap
    · exact fold

include hcareful

theorem applyRule (hrule : e.table.rule? production = some rule) (hs : Intact e s)
    (hadmits : Admits rule s) : Safe e (fun _ => True) (e.applyRule production rule s) := by
  have hwrites : ∀ value, Safely e (fun _ => True) (Engine.inTurn (e.writes rule value)) :=
    fun _ => inTurn fun _ => write htable (htable.lhs hrule)
  by_cases hreduction : rule.reduction = .action
  · have hreadable : Args.Readable ⟨s.stack, rule.size⟩ :=
      Args.readable_of_isSome hs.based hadmits.there
    have hcall : Safe e (fun _ => True) (e.callProvider production ⟨s.stack, rule.size⟩ s) := by
      rw [callProvider]
      split
      next => exact .answered (hs.of_stack rfl) trivial
      next halt c hreduce =>
        cases halt with
        | raised f => exact .raised (hs.of_stack rfl)
        | crash => exact absurd hreduce (hcareful hrule hreduction rfl hreadable)
        | exhausted => exact .exhausted (hs.of_stack rfl)
    rw [applyRule_inTurn_action hreduction]
    exact hcall.bind fun value _ => hwrites value
  · rw [applyRule_inTurn hreduction]
    exact hwrites default s hs

theorem reduce (hrule : e.table.rule? production = some rule) :
    Safely e (fun _ => True) (e.reduce production rule) := by
  intro s hs
  rw [Engine.reduce, Engine.get_bind]
  split
  · exact fault _ s hs
  split
  · exact fault _ s hs
  next harity =>
    split
    next => exact underflow _ s hs
    next hthere =>
      refine applyRule htable hcareful hrule hs ⟨by simpa using harity, fun hsize => ?_⟩
      exact Option.isSome_iff_ne_none.mpr (by simpa [hsize] using hthere)

variable (token : T) (value : V)

theorem carryOut {state : S} (hstate : e.table.hasState state = true) :
    Safely e (fun _ => True) (e.carryOut token value state) := by
  unfold Engine.carryOut
  split
  next next haction =>
    exact (notify _).bind fun _ _ => (count _).bind fun _ _ =>
      (push (htable.shift hstate haction)).bind fun _ _ => answer trivial
  next production haction =>
    obtain ⟨rule, hrule⟩ := htable.reduce hstate haction
    refine (within hrule).bind fun _ heq => ?_
    rw [heq]
    exact (notify _).bind fun _ _ => (reduce htable hcareful hrule).bind fun _ _ =>
      (count _).bind fun _ _ => get_bind fun _ => answer trivial
  next => exact (notify _).bind fun _ _ _ hs => .answered (hs.of_stack rfl) trivial
  next =>
    exact (count _).bind fun _ _ => (notify _).bind fun _ _ => (setFailed true).bind fun _ _ =>
      answer trivial

theorem decideToken : Safely e (fun _ => True) (e.decideToken token value) := by
  rw [decideToken_eq]
  exact (get_bind fun _ => notify _).bind fun _ _ => topState.bind fun _ hstate =>
    carryOut htable hcareful token value hstate

theorem driveWithin (steps : Nat) :
    Safely e (fun _ => True) (e.driveWithin token value steps) := by
  induction steps with
  | zero => exact fun _ hs => .exhausted hs
  | succ steps ih =>
    refine (decideToken htable hcareful token value).bind fun settled _ => ?_
    split
    · exact answer trivial
    · exact ih

theorem drive : Safely e (fun _ => True) (e.drive token value) :=
  get_bind fun _ => driveWithin htable hcareful token value _

section Responding

variable [DecidableEq T] (recovery : T)

omit [Inhabited V] htable hcareful in
theorem resolve : Safely e (fun _ => True) (e.resolve token) := by
  refine get_bind fun s => ?_
  split
  · refine rollback.bind fun _ _ => ?_
    split
    · exact notify _
    · exact (notify _).bind fun _ _ => (count _).bind fun _ _ => setFailed false
  · exact commit

theorem repost : Safely e (fun _ => True) (e.repost token value) :=
  (notify _).bind fun _ _ => (drive htable hcareful token value).bind fun _ _ => resolve token

theorem resume : Safely e (fun _ => True) (e.resume token value recovery) := by
  refine get_bind fun s => ?_
  split
  · exact (notify _).bind fun _ _ => rollback
  · exact commit.bind fun _ _ => repost htable hcareful token value

theorem regain (found : Bool) : Safely e (fun _ => True) (e.regain token value recovery found) := by
  unfold Engine.regain
  split
  · exact (drive htable hcareful recovery default).bind fun _ _ =>
      resume htable hcareful token value recovery
  · exact rollback.bind fun _ _ => setFailed true

theorem recover : Safely e (fun _ => True) (e.recover token value recovery) :=
  (count _).bind fun _ _ => rollback.bind fun _ _ => (setFailed false).bind fun _ _ =>
    (unwind recovery).bind fun found _ => regain htable hcareful token value recovery found

theorem respond : Safely e (fun _ => True) (e.respond token value) := by
  refine get_bind fun s => ?_
  split
  · split
    · exact recover htable hcareful token value _
    · exact rollback
  · exact commit

theorem settle : Safely e (fun _ => True) (e.settle token value) :=
  (count _).bind fun _ _ => rollback.bind fun _ _ =>
    (drive htable hcareful token value).bind fun _ _ => respond htable hcareful token value

end Responding

end Safely

end Driving

end Engine

end ShiftReduce
