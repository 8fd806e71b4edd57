import ShiftReduce.Proofs.Engine.Loop

namespace ShiftReduce

namespace Session

variable {S V σ : Type} {s : Session S V σ} {n : Nat}

/-- The frames on top make up as many elements, whatever is left below. -/
def Offers (n : Nat) (s : Session S V σ) : Prop :=
  ∃ xs below, s.stack.frames = flatten xs ++ below ∧ xs.length = n

end Session

namespace Engine

variable {S T N P V σ α β : Type} {e : Engine S T N P V σ} {s t : Session S V σ} {f : Fault}

section Pushes

end Pushes

inductive Cause (e : Engine S T N P V σ) (production : P) (rule : Rule N) (s : Session S V σ) :
    Fault → Prop
  | ebnfDisabled : rule.reduction.isEbnf = true → e.config.ebnf = false →
      Cause e production rule s (.ebnfDisabled rule.label)
  | badArity : rule.reduction.acceptsSize rule.size = false →
      Cause e production rule s (.badArity rule.label rule.reduction.label rule.size)
  | short : ¬ s.Offers rule.size →
      Cause e production rule s (.stack (.underflow rule.size s.stack.depth))
  | uncovered : rule.reduction = .seqHead ∨ rule.reduction = .optNothing ∨
        rule.reduction = .optJust →
      ¬ s.Offers (rule.size + 1) →
      Cause e production rule s (.stack (.underflow (rule.size + 1) s.stack.depth))
  | bare {xs} : rule.reduction = .action ∨ rule.reduction = .nothing →
      s.stack.frames = flatten xs → xs.length = rule.size →
      Cause e production rule s (.stack (.underflow 1 0))
  | missingGoto {xs frame below} : s.stack.frames = flatten xs ++ frame :: below →
      xs.length = rule.size → e.table.goto frame.state rule.lhs = none →
      Cause e production rule s
        (.missingGoto (e.table.stateIndex frame.state) (e.table.nonterminalName rule.lhs))
  | provided {client f} : rule.reduction = .action → s.Offers rule.size →
      e.provider.reduce production ⟨s.stack, rule.size⟩ s.client = .error (.raised f) client →
      Cause e production rule s f

section Reductions

variable {production : P} {rule : Rule N} {xs : List (Element S V)} {below : List (Frame S V)}

variable [Inhabited V]

end Reductions

variable [Inhabited V] {token : T} {value : V}

/-- A post ends with a fault where one of its drives decides to reduce and the reduction fails; the
fault is told, and the transaction taken back. -/
inductive Raises (e : Engine S T N P V σ) (token : T) (value : V) (s : Session S V σ) :
    Fault → Session S V σ → Prop
  | reduction {token' value' u w head below production rule f t} :
      Undertakes e token value s token' value' u → Continues e token' value' u w →
      w.stack.frames = head :: below → e.table.action head.state token' = .reduce production →
      e.table.rule? production = some rule →
      e.reduce production rule (w.reducing e token' production rule) = .error (.raised f) t →
      Cause e production rule (w.reducing e token' production rule) f →
      Raises e token value s f ((t.tell e (.aborting f)).rollback.fail true)

section Decisions

theorem Rewrites.ne_nil {size : Nat} {xs : List (Element S V)} {below frames : List (Frame S V)}
    {r : Reduction} (h : Rewrites size xs below r frames) : frames ≠ [] := by
  cases h <;> exact List.cons_ne_nil _ _

theorem decideToken_undecided_nonempty (h : e.decideToken token value s = .ok false t) :
    t.stack.frames ≠ [] := by
  have hdecided := decideToken_decided e s token value
  rw [h] at hdecided
  cases hdecided with
  | reduced _ _ _ hreduce hopen =>
    obtain ⟨-, happly, xs, below, helements, hsize⟩ := reduce_ok hreduce
    exact (applyRule_rewrites helements hsize happly hopen).ne_nil

theorem Continues.nonempty (h : Continues e token value s t) (hs : s.stack.frames ≠ []) :
    t.stack.frames ≠ [] := by
  cases h with
  | refl => exact hs
  | decided _ hdecide => exact decideToken_undecided_nonempty hdecide

theorem Continues.cons {u : Session S V σ} (hdecide : e.decideToken token value s = .ok false t)
    (h : Continues e token value t u) : Continues e token value s u := by
  induction h with
  | refl => exact .decided .refl hdecide
  | decided _ hdecide' ih => exact .decided ih hdecide'

end Decisions

section Drives

omit [Inhabited V] in
theorem exposed_ne_nil {handles : S → Bool} {frames : List (Frame S V)} :
    exposed handles frames ≠ some [] := by
  fun_induction exposed handles frames with
  | case1 => exact nofun
  | case2 => simp
  | case3 _ _ _ ih => exact ih

theorem Undertakes.nonempty {token' : T} {value' : V} {u : Session S V σ}
    (h : Undertakes e token value s token' value' u) (hs : Founded e s) : u.stack.frames ≠ [] := by
  cases h with
  | posted => exact hs.nonempty
  | resumed _ _ _ hunwind =>
    have hexposed := unwind_exposed e _ hunwind
    rw [if_pos rfl] at hexposed
    intro hnil
    rw [hnil] at hexposed
    exact exposed_ne_nil hexposed
  | reposted _ _ hdrive hopen =>
    have hne := drive_nonempty hdrive hopen
    exact hne

theorem Settles.raised (h : Settles e token value s (.error (.raised f) t)) (hs : Founded e s) :
    ∃ token' value' u, Undertakes e token value s token' value' u ∧
      e.drive token' value' u = .error (.raised f) t := by
  cases h with
  | halted hdrive => exact ⟨_, _, _, .posted, hdrive⟩
  | recovered hdrive hfailed hrecovery hrecovers =>
    cases hrecovers with
    | unwindHalted hunwind =>
      have hbounded := (hs.of_failing hdrive).bounded rfl
      obtain ⟨_, _, hunwind', -⟩ := unwind_bounded (e := e) _ hbounded
      cases hunwind.symm.trans hunwind'
    | halted hunwind hdrive' =>
      exact ⟨_, _, _, .resumed hrecovery hdrive hfailed hunwind, hdrive'⟩
    | resumed hunwind hdrive' hopen hreposts =>
      have hresumed := Undertakes.resumed hrecovery hdrive hfailed hunwind
      cases hreposts with
      | halted hrepost => exact ⟨_, _, _, .reposted hresumed hrecovery hdrive' hopen, hrepost⟩

end Drives

end Engine

end ShiftReduce
