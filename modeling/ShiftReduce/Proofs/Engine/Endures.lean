import ShiftReduce.Proofs.Engine.Faults
import ShiftReduce.Proofs.Engine.Intact

namespace ShiftReduce

namespace Engine

variable {S T N P V σ α β : Type}

section Posts

variable [Inhabited V] [DecidableEq T] {e : Engine S T N P V σ} (htable : e.table.Closed)
  (hcareful : e.Careful) {token : T} {value : V} {s t : Session S V σ}

inductive Concludes (e : Engine S T N P V σ) (s : Session S V σ) :
    EStateM.Result (Halt Fault) (Session S V σ) Bool → Prop
  | answered {closed : Bool} {t : Session S V σ} : Intact e t → Concludes e s (.ok closed t)
  | refused : s.closed = true → Concludes e s (.error (.raised .sessionClosed) s)
  | faulted {f : Fault} {t : Session S V σ} : s.closed = false → Intact e t → t.failed = true →
      Concludes e s (.error (.raised f) t)
  | exhausted {t : Session S V σ} : Concludes e s (.error .exhausted t)

include htable hcareful

theorem post_concludes (token : T) (value : V) (hs : Intact e s) :
    Concludes e s (e.post token value s) := by
  cases hclosed : s.closed with
  | true =>
    rw [post_of_closed hclosed]
    exact .refused hclosed
  | false =>
    have hpost : e.post token value s =
        (if s.closed then fault .sessionClosed
          else e.guarded (e.settle token value) >>= fun _ => return (← get).closed) s := rfl
    have hguarded := e.guarded_run (e.settle token value) s
    rw [hpost, hclosed, if_neg Bool.false_ne_true]
    have hsafe := Safely.settle htable hcareful token value s hs
    generalize hsettle : e.settle token value s = r at hsafe
    rw [hsettle] at hguarded
    cases hsafe with
    | answered ht _ =>
      rw [bind_of_ok hguarded]
      exact .answered ht
    | @raised f t ht =>
      have haborted : Intact e ((t.tell e (.aborting f)).rollback.fail true) :=
        ht.rollback.of_stack rfl
      rw [bind_of_error hguarded]
      exact .faulted hclosed haborted rfl
    | exhausted =>
      rw [bind_of_error hguarded]
      exact .exhausted

end Posts

section Visits

variable [Inhabited V]

/-- The sessions at which posting a token reads the stack: those that its drives pass, and those
that the unwinding of a recovery comes by, wherever it is cut short. -/
inductive Visits (e : Engine S T N P V σ) (token : T) (value : V) (s : Session S V σ) :
    Session S V σ → Prop
  | driving {token' value' u t} : Undertakes e token value s token' value' u →
      Passes e token' value' u t → Visits e token value s t
  | unwinding {recovery t} (steps : Nat) : e.config.recovery = some recovery →
      e.drive token value s.opened = .ok () t → t.failed = true →
      Visits e token value s (final (e.unwindWithin recovery steps t.reopened))

variable {e : Engine S T N P V σ} {token token' : T} {value value' : V} {s t u : Session S V σ}

variable (htable : e.table.Closed) (hcareful : e.Careful)

include htable hcareful

theorem Intact.of_drive (h : Intact e s) (hdrive : e.drive token value s = .ok () t) :
    Intact e t := by
  have hsafe := (Safely.drive htable hcareful token value s h).final
  rwa [hdrive] at hsafe

theorem Continues.intact (h : Continues e token value s t) (hs : Intact e s) : Intact e t := by
  induction h with
  | refl => exact hs
  | @decided t u _ hdecide ih =>
    have hu := (Safely.decideToken htable hcareful token value t ih).final
    rwa [hdecide] at hu

theorem Passes.intact (h : Passes e token value s t) (hs : Intact e s) : Intact e t := by
  cases h with
  | between ht => exact ht.intact htable hcareful hs
  | settled ht =>
    exact (Safely.decideToken htable hcareful token value _ (ht.intact htable hcareful hs)).final
  | @written t _ _ _ _ _ _ client ht _ _ hrule _ hpre =>
    have ht : Intact e { t with client } := (ht.intact htable hcareful hs).of_stack rfl
    have hwrites := Safely.inTurn fun _ hx =>
      Safely.write htable (htable.lhs hrule) (hpre.subset hx)
    exact (hwrites _ ht).final

theorem Undertakes.intact (h : Undertakes e token value s token' value' u) (hs : Intact e s) :
    Intact e u := by
  induction h with
  | posted => exact hs.opened
  | @resumed recovery t u _ hdrive _ hunwind =>
    have ht := (hs.opened.of_drive htable hcareful hdrive).reopened
    have hu := (Safely.unwind recovery _ ht).final
    rwa [hunwind] at hu
  | reposted _ _ hdrive _ ih => exact (ih.of_drive htable hcareful hdrive).commit.of_stack rfl

theorem Visits.intact (h : Visits e token value s t) (hs : Intact e s) : Intact e t := by
  cases h with
  | driving hu ht => exact ht.intact htable hcareful (hu.intact htable hcareful hs)
  | unwinding steps _ hdrive =>
    have ht := (hs.opened.of_drive htable hcareful hdrive).reopened
    exact (Safely.unwindWithin _ steps _ ht).final

end Visits

section Operations

variable {e : Engine S T N P V σ} {s t : Session S V σ}

structure Endures (e : Engine S T N P V σ) (x : Run S V σ α) : Prop where
  ne_crash : ∀ s t, Intact e s → x s ≠ .error .crash t
  intact : ∀ s t, Intact e s → Completes (x s) t → Intact e t

namespace Endures

theorem of_safe {Q : α → Prop} {x : Run S V σ α} (h : ∀ s, Intact e s → Safe e Q (x s)) :
    Endures e x := by
  constructor
  · intro s t hs hcrash
    cases hcrash ▸ h s hs
  · intro s t hs ht
    have hsafe := h s hs
    generalize x s = r at hsafe ht
    cases ht with
    | answered =>
      cases hsafe with
      | answered ht => exact ht
    | faulted =>
      cases hsafe with
      | raised ht => exact ht

theorem bind {x : Run S V σ α} {f : α → Run S V σ β} (hx : Endures e x)
    (hf : ∀ a, Endures e (f a)) : Endures e (x >>= f) := by
  constructor
  · intro s t hs hcrash
    cases hrun : x s with
    | ok a u =>
      rw [bind_of_ok hrun] at hcrash
      exact (hf a).ne_crash u t (hx.intact s u hs (hrun ▸ .answered)) hcrash
    | error halt u =>
      rw [bind_of_error hrun] at hcrash
      cases hcrash
      exact hx.ne_crash s _ hs hrun
  · intro s t hs ht
    rcases completes_of_bind ht with ⟨a, u, hrun, hrest⟩ | hrun
    · exact (hf a).intact u t (hx.intact s u hs (hrun ▸ .answered)) hrest
    · exact hx.intact s t hs hrun

theorem map {x : Run S V σ α} (hx : Endures e x) (f : α → β) : Endures e (f <$> x) := by
  rw [map_eq_pure_bind]
  exact hx.bind fun a => .of_safe (Q := fun _ => True) (Safely.answer trivial)

theorem answer (a : α) : Endures e (pure a : Run S V σ α) :=
  .of_safe (Q := fun _ => True) (Safely.answer trivial)

theorem take : Endures e (Engine.take : Run S V σ (Option V)) := by
  refine .of_safe (Q := fun _ => True) fun s hs => ?_
  rw [take_run]
  split
  · exact .answered (hs.of_stack rfl) trivial
  · exact .answered hs trivial

variable [Inhabited V]

theorem reset (htable : e.table.Closed) : Endures e e.reset := by
  refine .of_safe (Q := fun _ => True) fun s _ => ?_
  have hcleared : Intact e (cleared s) := .of_empty rfl
  rw [reset_eq]
  exact (Safely.push htable.start).bind (fun _ _ => Safely.commit) _ hcleared

variable [DecidableEq T] (htable : e.table.Closed) (hcareful : e.Careful)

include htable hcareful

theorem post (token : T) (value : V) : Endures e (e.post token value) := by
  constructor
  · intro s t hs hcrash
    cases hcrash ▸ post_concludes htable hcareful token value hs
  · intro s t hs ht
    have hconcludes := post_concludes htable hcareful token value hs
    generalize e.post token value s = r at hconcludes ht
    cases hconcludes with
    | answered ht' =>
      cases ht
      exact ht'
    | refused =>
      cases ht
      exact hs
    | faulted _ ht' =>
      cases ht
      exact ht'
    | exhausted => cases ht

theorem postAll (tokens : List (T × V)) : Endures e (e.postAll tokens) := by
  induction tokens with
  | nil => exact answer false
  | cons token rest ih =>
    refine (post htable hcareful token.1 token.2).bind fun closed => ?_
    cases closed with
    | true => exact answer true
    | false => exact ih

theorem perform (op : Op T V) : Endures e (e.perform op) := by
  cases op with
  | post token value => exact (post htable hcareful token value).map _
  | postAll tokens => exact (postAll htable hcareful tokens).map _
  | parse tokens =>
    exact ((reset htable).bind fun _ => (postAll htable hcareful tokens).bind fun _ => take).map _
  | reset => exact (reset htable).bind fun _ => answer _
  | accepted => exact .of_safe (Q := fun _ => True) fun _ hs => .answered hs trivial
  | take => exact take.map _

end Endures

variable [Inhabited V] [DecidableEq T]

theorem Reached.intact (htable : e.table.Closed) (hcareful : e.Careful) (hs : Reached e s) :
    Intact e s := by
  induction hs with
  | start hstart =>
    exact (Endures.reset htable).intact _ _ (.of_empty rfl) (completes_of_start hstart)
  | perform op _ ht ih => exact (Endures.perform htable hcareful op).intact _ _ ih ht
  | attend client _ ih => exact ih.of_stack rfl

end Operations

section Unfolded

open Calculator (Actions Client Production Request State Value defaultConfig)

end Unfolded

end Engine

end ShiftReduce
