import ShiftReduce.Proofs.Engine.Atomic
import ShiftReduce.Proofs.Engine.Bounded
import ShiftReduce.Proofs.Frame.Cursor
import Mathlib.Data.List.Infix

namespace ShiftReduce.Engine

variable {S T N P V σ : Type}

inductive Step (S N P V : Type) : Type
  | push (frame : Frame S V)
  | reduce (production : P) (rule : Rule N)
  | commit

namespace Step

def isWrite : Step S N P V → Bool
  | .push _ | .reduce _ _ => true
  | .commit => false

end Step

/-- Steps that gather items, here the most recent one first, under an accumulator for `lhs`. It is
begun with no item or with one; each further item comes alone or after a separator that is dropped.
-/
inductive Gathers (lhs : N) : List (Step S N P V) → List (Frame S V) → Prop
  | empty {production : P} {rule : Rule N} :
      rule.reduction = .seqHead → rule.size = 0 → rule.lhs = lhs →
      Gathers lhs [.reduce production rule] []
  | one {item : Frame S V} {production : P} {rule : Rule N} :
      item.folded = 0 → rule.reduction = .seqHead → rule.size = 1 → rule.lhs = lhs →
      Gathers lhs [.push item, .reduce production rule] [item]
  | next {steps items} {item : Frame S V} {production : P} {rule : Rule N} :
      Gathers lhs steps items → item.folded = 0 → rule.reduction = .seqTrail → rule.size = 2 →
      Gathers lhs (steps ++ [.push item, .reduce production rule]) (item :: items)
  | separated {steps items} {separator item : Frame S V} {production : P} {rule : Rule N} :
      Gathers lhs steps items → separator.folded = 0 → item.folded = 0 →
      rule.reduction = .seqTrail2 → rule.size = 3 →
      Gathers lhs (steps ++ [.push separator, .push item, .reduce production rule]) (item :: items)

section Steps

variable [Inhabited V] (e : Engine S T N P V σ)

def step : Step S N P V → Run S V σ Unit
  | .push frame => e.push frame
  | .reduce production rule => e.reduce production rule
  | .commit => commit

def carry (steps : List (Step S N P V)) : Run S V σ Unit := inTurn (steps.map e.step)

/-- No push on the way overflows: that would fail the session. -/
def Fits (steps : List (Step S N P V)) (s : Session S V σ) : Prop :=
  ∀ pre, pre <+: steps → (final (e.carry pre s)).failed = false

def Makes (s : Session S V σ) (plan : List (Step S N P V)) (frames : List (Frame S V)) : Prop :=
  ∀ steps, steps.filter Step.isWrite = plan → e.Fits steps s →
    ∃ t, e.carry steps s = .ok () t ∧ t.stack.frames = frames

variable {e}

theorem carry_append (xs ys : List (Step S N P V)) :
    e.carry (xs ++ ys) = e.carry xs >>= fun _ => e.carry ys := by
  rw [carry, List.map_append, inTurn_append]
  rfl

theorem carry_commits {steps : List (Step S N P V)} (h : steps.filter Step.isWrite = [])
    (s : Session S V σ) : ∃ t, e.carry steps s = .ok () t ∧ t.stack.frames = s.stack.frames := by
  induction steps generalizing s with
  | nil => exact ⟨s, rfl, rfl⟩
  | cons x xs ih =>
    cases x with
    | push | reduce => cases h
    | commit => exact ih h s.commit

namespace Makes

variable {s : Session S V σ} {plan : List (Step S N P V)} {frames frames' : List (Frame S V)}
  {production : P} {rule : Rule N}

theorem nil : Makes e s [] s.stack.frames := fun _ h _ => carry_commits h s

theorem concat {x : Step S N P V} (h : Makes e s plan frames)
    (hx : ∀ t, t.stack.frames = frames →
      ∃ u, e.step x t = .ok () u ∧ (u.failed = false → u.stack.frames = frames')) :
    Makes e s (plan ++ [x]) frames' := by
  intro steps hplan hfits
  obtain ⟨front, back, rfl, hfront, hback⟩ := List.filter_eq_append_iff.mp hplan
  obtain ⟨before, after, rfl, hbefore, -, hafter⟩ := List.filter_eq_cons_iff.mp hback
  have hbegin : (front ++ before).filter Step.isWrite = plan := by
    rw [List.filter_append, hfront, List.filter_eq_nil_iff.mpr hbefore, List.append_nil]
  have hsplit : front ++ (before ++ x :: after) = (front ++ before) ++ ([x] ++ after) := by simp
  rw [hsplit] at hfits ⊢
  obtain ⟨t, ht, htframes⟩ :=
    h _ hbegin fun pre hpre => hfits pre (hpre.trans (List.prefix_append _ _))
  obtain ⟨u, hu, huframes⟩ := hx t htframes
  have hreach : e.carry ((front ++ before) ++ [x]) s = .ok () u := by
    rw [carry_append, bind_of_ok ht]
    exact bind_of_ok hu
  have hopen := hfits ((front ++ before) ++ [x]) ⟨after, by simp⟩
  rw [hreach] at hopen
  obtain ⟨v, hv, hvframes⟩ := carry_commits (e := e) hafter u
  refine ⟨v, ?_, hvframes.trans (huframes hopen)⟩
  rw [← List.append_assoc, carry_append, bind_of_ok hreach, hv]

theorem push {frame : Frame S V} (h : Makes e s plan frames)
    (hstate : e.table.hasState frame.state = true) :
    Makes e s (plan ++ [.push frame]) (frame :: frames) := by
  refine h.concat fun t ht => ?_
  obtain ⟨u, hpush, hu⟩ := push_leaves (e := e) frame t hstate
  exact ⟨u, hpush, fun hopen => by rw [frames_of_push_ok hpush hopen, ht]⟩

theorem reduce {xs ys : List (Element S V)} (h : Makes e s plan (flatten (xs ++ ys)))
    (hebnf : e.config.ebnf = true) (hsize : xs.length = rule.size)
    (haccepts : rule.reduction.acceptsSize rule.size = true)
    (hrule : ∀ t, t.stack.frames = flatten (xs ++ ys) →
      ∃ u, e.applyRule production rule t = .ok () u ∧ Leaves e t frames' u) :
    Makes e s (plan ++ [.reduce production rule]) frames' := by
  refine h.concat fun t ht => ?_
  obtain ⟨u, hu, hleaves⟩ := hrule t ht
  refine ⟨u, (reduce_eq_applyRule ht hsize hebnf haccepts).trans hu, fun hopen => ?_⟩
  cases hleaves with
  | done _ hframes => exact hframes
  | crowded => cases hopen

end Makes

def alone (f : Frame S V) : Element S V := ⟨f.state, f.value, []⟩

omit [Inhabited V] in
theorem head_alone {f : Frame S V} (h : f.folded = 0) : (alone f).head = f := by
  rw [alone, Element.head, List.length_nil, ← h]

omit [Inhabited V] in
theorem flatten_alone {f : Frame S V} (h : f.folded = 0) (xs : List (Element S V)) :
    flatten (alone f :: xs) = f :: flatten xs := by
  rw [flatten_cons, head_alone h]
  rfl

theorem Gathers.makes {s : Session S V σ} {lhs : N} {next : S} {y : Element S V}
    {ys : List (Element S V)} {plan : List (Step S N P V)} {items : List (Frame S V)}
    (h : Gathers lhs plan items) (hs : s.stack.frames = flatten (y :: ys))
    (hebnf : e.config.ebnf = true) (hlhs : e.table.hasNonterminal lhs = true)
    (hgoto : e.table.goto y.state lhs = some next) (hnext : e.table.hasState next = true)
    (hstates : ∀ frame, .push frame ∈ plan → e.table.hasState frame.state = true) :
    Makes e s plan (flatten (⟨next, default, items⟩ :: y :: ys)) := by
  have hbegin : Makes e s [] (flatten ([] ++ y :: ys)) := hs ▸ .nil
  induction h with
  | @empty production rule hhead hsize hrule =>
    subst hrule
    refine hbegin.reduce hebnf hsize.symm (by simp [hhead, hsize, Reduction.acceptsSize]) ?_
    intro t ht
    rw [applyRule_seqHead hhead]
    exact cover_leaves ht (List.forall_mem_nil _) hsize.symm hlhs hnext hgoto
  | @one item production rule hitem hhead hsize hrule =>
    subst hrule
    have hpush : Makes e s [.push item] (flatten ([alone item] ++ y :: ys)) := by
      rw [List.cons_append, flatten_alone hitem]
      exact hbegin.push (hstates item (by simp))
    refine hpush.reduce hebnf hsize.symm (by simp [hhead, hsize, Reduction.acceptsSize]) ?_
    intro t ht
    rw [applyRule_seqHead hhead]
    have hcover := cover_leaves ht (by simp [alone]) hsize.symm hlhs hnext hgoto
    rwa [List.map_singleton, head_alone hitem] at hcover
  | @next steps items item production rule _ hitem htrail hsize ih =>
    have hitems := ih fun frame hframe => hstates frame (by simp [hframe])
    have hpush : Makes e s (steps ++ [.push item])
        (flatten ([alone item, ⟨next, default, items⟩] ++ y :: ys)) := by
      rw [List.cons_append, flatten_alone hitem]
      exact hitems.push (hstates item (by simp))
    have hplan : steps ++ [.push item, .reduce production rule] =
        steps ++ [.push item] ++ [.reduce production rule] := by simp
    rw [hplan]
    refine hpush.reduce hebnf hsize.symm (by simp [htrail, hsize, Reduction.acceptsSize]) ?_
    intro t ht
    rw [applyRule_seqTrail htrail]
    obtain ⟨u, hfold, hu, hframes⟩ := foldSecond (e := e) ht
    refine ⟨u, hfold, .done hu ?_⟩
    rw [hframes, ← head_alone hitem]
    rfl
  | @separated steps items separator item production rule _ hseparator hitem htrail hsize ih =>
    have hitems := ih fun frame hframe => hstates frame (by simp [hframe])
    have hpush : Makes e s (steps ++ [.push separator] ++ [.push item])
        (flatten ([alone item, alone separator, ⟨next, default, items⟩] ++ y :: ys)) := by
      rw [List.cons_append, flatten_alone hitem, List.cons_append, flatten_alone hseparator]
      exact (hitems.push (hstates separator (by simp))).push (hstates item (by simp))
    have hplan : steps ++ [.push separator, .push item, .reduce production rule] =
        steps ++ [.push separator] ++ [.push item] ++ [.reduce production rule] := by simp
    rw [hplan]
    refine hpush.reduce hebnf hsize.symm (by simp [htrail, hsize, Reduction.acceptsSize]) ?_
    intro t ht
    rw [applyRule_seqTrail2 htrail]
    obtain ⟨u, hfold, hu, hframes⟩ := foldThird (e := e) ht
    refine ⟨u, hfold, .done hu ?_⟩
    rw [hframes, ← head_alone hitem]
    rfl

/-- However the items are gathered, they are left in order below an accumulator that counts them. As
an argument it has their values from the oldest on, and backwards from the other end; to pop it
gives back what was there before. -/
theorem gather {s : Session S V σ} {lhs : N} {next : S} {top : Frame S V}
    {below items : List (Frame S V)} {steps : List (Step S N P V)}
    (hebnf : e.config.ebnf = true) (hs : s.stack.frames = top :: below)
    (hfolded : ∀ i frame, s.stack.nth? i = some frame → frame.folded ≤ i)
    (hlhs : e.table.hasNonterminal lhs = true) (hgoto : e.table.goto top.state lhs = some next)
    (hnext : e.table.hasState next = true)
    (hstates : ∀ frame, .push frame ∈ steps → e.table.hasState frame.state = true)
    (hgathers : Gathers lhs (steps.filter Step.isWrite) items) (hfits : e.Fits steps s) :
    ∃ t, e.carry steps s = .ok () t ∧
      t.stack.frames = ⟨next, default, items.length⟩ :: (items ++ s.stack.frames) ∧
      (∀ i, Args.sequence? ⟨t.stack, i + 1⟩ i = some (items.reverse.map Frame.value) ∧
        ∃ c, Args.cursor? ⟨t.stack, i + 1⟩ i = some c ∧ c.length = items.length ∧
          ∀ n, c.drain Cursor.next (items.length + n) =
              (items.reverse.map Frame.value).map some ++ List.replicate n none ∧
            c.drain Cursor.nextBack (items.length + n) =
              (items.map Frame.value).map some ++ List.replicate n none) ∧
      ∃ u, popElements 1 t = .ok () u ∧ u.stack.frames = s.stack.frames := by
  obtain ⟨elements, helements⟩ := (grounded_iff.mpr hfolded).exists_flatten
  cases elements with
  | nil => cases hs.symm.trans helements
  | cons y ys =>
    obtain rfl : y.head = top := by
      rw [hs] at helements
      exact (List.cons.inj helements).1.symm
    have hmakes := hgathers.makes helements hebnf hlhs hgoto hnext fun frame hframe =>
      hstates frame (List.mem_of_mem_filter hframe)
    obtain ⟨t, ht, hframes⟩ := hmakes steps rfl hfits
    have hlast : t.stack.frames = flatten ([] ++ ⟨next, default, items⟩ :: y :: ys) := hframes
    refine ⟨t, ht, ?_, fun i => ⟨?_, ?_⟩, ?_⟩
    · rw [hframes, flatten_cons, helements]
      rfl
    · exact sequence?_flatten hlast rfl
    · obtain ⟨c, hc, hviews⟩ := cursor?_flatten hlast (show i + 0 + 1 = i + 1 from rfl)
      have hlength : (items.reverse.map Frame.value).length = items.length := by simp
      refine ⟨c, hc, hviews.length_eq.trans hlength, fun n => ⟨?_, ?_⟩⟩
      · rw [← hlength]
        exact hviews.drain_next n
      · have hback := hviews.drain_nextBack n
        rwa [hlength, ← List.map_reverse, List.reverse_reverse] at hback
    · obtain ⟨stack, hstack, hpop⟩ := popElements_flatten [⟨next, default, items⟩] (y :: ys) hframes
      rw [helements]
      exact ⟨_, hpop, hstack.frames_eq⟩

end Steps

section Arguments

open Calculator (stock)

def calling : Calculator.Session Unit :=
  final (stock.postAll [(.ident, .nothing), (.leftParen, .nothing)] newSession)

def argument (state : Calculator.State) (n : Int) :
    Frame Calculator.State Calculator.Value := ⟨state, .number n, 0⟩

def reduceBy (production : Calculator.Production) :
    Step Calculator.State Calculator.Nonterminal Calculator.Production Calculator.Value :=
  .reduce production production.rule

def twoArguments : List
    (Step Calculator.State Calculator.Nonterminal Calculator.Production Calculator.Value) :=
  [.push (argument .firstArgument 1), reduceBy .firstArgument, .push ⟨.comma, .nothing, 0⟩,
    .commit, .push (argument .nextArgument 2), .commit, reduceBy .nextArgument]

theorem gathers_twoArguments :
    Gathers Calculator.Nonterminal.arguments (twoArguments.filter Step.isWrite)
      [argument .nextArgument 2, argument .firstArgument 1] := by
  have hone : Gathers Calculator.Nonterminal.arguments
      [.push (argument .firstArgument 1), reduceBy .firstArgument] [argument .firstArgument 1] :=
    .one rfl rfl rfl rfl
  exact hone.separated rfl rfl rfl rfl

theorem gather_twoArguments :
    calling.stack.frames.map Frame.state = [.openArguments, .name, .statements, .start] ∧
      stock.Fits twoArguments calling ∧
      ∃ t, stock.carry twoArguments calling = .ok () t ∧
        t.stack.frames.map Frame.folded = [2, 0, 0, 0, 0, 0, 0] ∧
        Args.sequence? ⟨t.stack, 3⟩ 2 = some [.number 1, .number 2] ∧
        (∃ c, Args.cursor? ⟨t.stack, 3⟩ 2 = some c ∧
          c.drain Cursor.nextBack 3 = [some (.number 2), some (.number 1), none]) ∧
        ∃ u, popElements 1 t = .ok () u ∧ u.stack.frames = calling.stack.frames := by
  have hstates : calling.stack.frames.map Frame.state =
      [.openArguments, .name, .statements, .start] := by decide +kernel
  have hplain : calling.stack.frames.map Frame.folded = [0, 0, 0, 0] := by decide +kernel
  have hfits : stock.Fits twoArguments calling := by
    have hinits : ∀ pre ∈ twoArguments.inits, (final (stock.carry pre calling)).failed = false := by
      decide +kernel
    exact fun pre hpre => hinits pre ((List.mem_inits pre _).mpr hpre)
  obtain ⟨top, below, hframes, htop, -⟩ := List.map_eq_cons_iff.mp hstates
  have hfolded : ∀ i frame, calling.stack.nth? i = some frame → frame.folded ≤ i := by
    intro i frame hframe
    rw [Stack.nth?_eq] at hframe
    have hmem := List.mem_map_of_mem (f := Frame.folded)
      (List.mem_reverse.mp (List.mem_of_getElem? hframe))
    rw [hplain] at hmem
    simp at hmem
    omega
  obtain ⟨t, ht, hleft, hread, hpop⟩ := gather rfl hframes hfolded rfl (by rw [htop]; rfl) rfl
    (fun _ _ => rfl) gathers_twoArguments hfits
  obtain ⟨hsequence, c, hc, -, hdrain⟩ := hread 2
  refine ⟨hstates, hfits, t, ht, ?_, hsequence, ⟨c, hc, (hdrain 1).2⟩, hpop⟩
  rw [hleft]
  simp [hplain, argument]

end Arguments

end ShiftReduce.Engine
