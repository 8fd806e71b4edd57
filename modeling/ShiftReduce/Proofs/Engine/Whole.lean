import ShiftReduce.Engine.Journal
import ShiftReduce.Proofs.Engine.Element
import ShiftReduce.Proofs.Engine.Reached
import ShiftReduce.Tabular.Basic
import Mathlib.Data.List.Basic

/-!
Reductions and whole elements. Arguments are counted and popped by element, but a new accumulator
folds as many frames as its rule has symbols, and a frame that joins an accumulator is swapped with
the frame below it. So a reduction leaves one element in place of those it takes as long as the ones
that it handles by frame are plain.
-/

namespace ShiftReduce

/-- How many of the most recent elements a reduction handles as if each were one frame. -/
def Reduction.byFrame (size : Nat) : Reduction → Nat
  | .seqHead | .optNothing | .optJust => size
  | .seqTrail => 1
  | .seqTrail2 => 2
  | .nothing | .action => 0

def Frame.outline {S V : Type} (f : Frame S V) : S × Nat := (f.state, f.folded)

namespace Engine

variable {S T N P V σ α β : Type} {e : Engine S T N P V σ} {s t : Session S V σ}

section Popping

variable {head : Frame S V} {fs below : List (Frame S V)}

/-- One element lies on `below`: to pop it gives `below` back. -/
def OneAbove (below : List (Frame S V)) (s : Session S V σ) : Prop :=
  ∃ y : Element S V, s.stack.frames = y.frames ++ below ∧
    ∃ t, popElements 1 s = .ok () t ∧ t.stack.frames = below

theorem oneAbove_of_frames {y : Element S V} (h : s.stack.frames = y.frames ++ below) :
    OneAbove below s := by
  have hflat : s.stack.frames = flatten [y] ++ below := by simp [h, flatten]
  obtain ⟨stack, hstack, hpop⟩ := popElements_append [y] hflat
  exact ⟨y, h, _, hpop, hstack.frames_eq⟩

theorem oneAbove_iff (h : s.stack.frames = head :: fs) :
    OneAbove below s ↔ head.folded ≤ fs.length ∧ fs.drop head.folded = below := by
  constructor
  · rintro ⟨y, hframes, -⟩
    rw [h] at hframes
    obtain ⟨rfl, rfl⟩ := List.cons.inj hframes
    simp [Element.head]
  · rintro ⟨hfolded, rfl⟩
    obtain ⟨y, hy⟩ := exists_element hfolded
    exact oneAbove_of_frames (h.trans hy)

theorem OneAbove.length_eq {head : Frame S V} {fs : List (Frame S V)} (h : OneAbove below t)
    (ht : t.stack.frames = head :: fs) : fs.length = head.folded + below.length := by
  obtain ⟨hfolded, rfl⟩ := (oneAbove_iff ht).mp h
  rw [List.length_drop]
  omega

theorem flatten_plain {ys : List (Element S V)} (h : ∀ y ∈ ys, y.under = []) :
    flatten ys = ys.map Element.head := by
  induction ys with
  | nil => rfl
  | cons y ys ih =>
    obtain ⟨hy, hys⟩ := List.forall_mem_cons.mp h
    simp [hy, ih hys]

end Popping

section Steps

theorem frames_of_push_ok {frame : Frame S V} (h : e.push frame s = .ok () t)
    (hopen : t.failed = false) : t.stack.frames = frame :: s.stack.frames := by
  by_cases hstate : e.table.hasState frame.state = true
  · rw [e.push_run frame s hstate] at h
    cases hpush : s.stack.push frame with
    | ok stack =>
      rw [hpush] at h
      cases h
      exact Stack.frames_of_push hpush
    | error err =>
      rw [hpush] at h
      cases h
      cases hopen
  · rw [e.push_crash frame s hstate] at h
    cases h

theorem stack_of_goto_ok {state next : S} {lhs : N} (h : e.goto state lhs s = .ok next t) :
    t.stack = s.stack := by
  by_cases hlhs : e.table.hasNonterminal lhs = true
  · rw [goto, if_pos hlhs] at h
    cases hgoto : e.table.goto state lhs with
    | some _ =>
      rw [hgoto] at h
      cases h
      rfl
    | none =>
      rw [hgoto] at h
      cases h
  · rw [goto, if_neg hlhs] at h
    cases h

theorem stack_of_topState_ok {state : S} (h : topState s = .ok state t) : t = s := by
  rw [topState, get_bind] at h
  cases htop : s.stack.top? with
  | some frame =>
    rw [htop] at h
    cases h
    rfl
  | none =>
    rw [htop] at h
    cases h

theorem frames_of_pushGoto_ok {lhs : N} {value : V} (h : e.pushGoto lhs value s = .ok () t)
    (hopen : t.failed = false) : ∃ next, t.stack.frames = ⟨next, value, 0⟩ :: s.stack.frames := by
  obtain ⟨state, u, htop, h⟩ := exists_of_bind_ok h
  obtain ⟨next, w, hgoto, hpush⟩ := exists_of_bind_ok h
  obtain rfl := stack_of_topState_ok htop
  rw [← stack_of_goto_ok hgoto]
  exact ⟨next, frames_of_push_ok hpush hopen⟩

theorem frames_of_swap_ok (h : e.swap s = .ok () t) :
    ∃ a b fs, s.stack.frames = a :: b :: fs ∧ t.stack.frames = b :: a :: fs := by
  match hframes : s.stack.frames with
  | a :: b :: fs =>
    obtain ⟨u, hswap, _, hu⟩ := swap_became (e := e) hframes
    rw [hswap] at h
    cases h
    exact ⟨a, b, fs, rfl, hu⟩
  | [] | [_] =>
    have hlt : s.stack.depth < 2 := by
      rw [← Stack.length_frames, hframes]
      simp
    rw [e.swap_run, Stack.swap_of_lt hlt] at h
    cases h

theorem frames_of_fold_ok (h : e.fold s = .ok () t) :
    ∃ a fs, s.stack.frames = a :: fs ∧
      t.stack.frames = { a with folded := a.folded + 1 } :: fs := by
  cases hframes : s.stack.frames with
  | nil =>
    rw [e.fold_run, Stack.modifyTop?_of_nil hframes] at h
    cases h
  | cons a fs =>
    obtain ⟨u, hfold, _, hu⟩ := fold_became (e := e) hframes
    rw [hfold] at h
    cases h
    exact ⟨a, fs, rfl, hu⟩

theorem frames_of_pop_ok {n : Nat} (h : pop n s = .ok () t) :
    t.stack.frames = s.stack.frames.drop n := by
  rw [pop_run] at h
  cases hpop : s.stack.pop n with
  | ok stack =>
    rw [hpop] at h
    cases h
    exact Stack.frames_of_pop hpop
  | error err =>
    rw [hpop] at h
    cases h

theorem stack_of_callProvider_ok {production : P} {args : Args S V} {value : V}
    (h : e.callProvider production args s = .ok value t) : t.stack = s.stack := by
  rw [callProvider] at h
  split at h
  · cases h
    rfl
  · cases h

end Steps

inductive Rewrites [Inhabited V] (size : Nat) (xs : List (Element S V)) (below : List (Frame S V)) :
    Reduction → List (Frame S V) → Prop
  | replaced {r} (next value) : r = .action ∨ r = .nothing →
      Rewrites size xs below r (⟨next, value, 0⟩ :: below)
  | covered {r} (next) : r = .seqHead ∨ r = .optNothing ∨ r = .optJust →
      Rewrites size xs below r (⟨next, default, size⟩ :: (flatten xs ++ below))
  | foldedSecond {a b : Frame S V} {fs} : flatten xs ++ below = a :: b :: fs →
      Rewrites size xs below .seqTrail ({ b with folded := b.folded + 1 } :: a :: fs)
  | foldedThird {a b c : Frame S V} {fs} : flatten xs ++ below = a :: b :: c :: fs →
      Rewrites size xs below .seqTrail2 ({ c with folded := c.folded + 1 } :: a :: fs)

section Reduction

variable {production : P} {rule : Rule N} {xs : List (Element S V)} {below : List (Frame S V)}

theorem replace_ok {value : V} (hframes : s.stack.frames = flatten xs ++ below)
    (h : (popElements xs.length >>= fun _ => e.pushGoto rule.lhs value) s = .ok () t)
    (hopen : t.failed = false) : ∃ next, t.stack.frames = ⟨next, value, 0⟩ :: below := by
  obtain ⟨stack, hstack, hpop⟩ := popElements_append xs hframes
  rw [bind_of_ok hpop] at h
  rw [← hstack.frames_eq]
  exact frames_of_pushGoto_ok h hopen

variable [Inhabited V]

theorem cover_ok (h : e.cover rule s = .ok () t) (hopen : t.failed = false) :
    ∃ next, t.stack.frames = ⟨next, default, rule.size⟩ :: s.stack.frames := by
  rw [cover, get_bind] at h
  cases hextent : extentBelow? s.stack s.stack.depth rule.size with
  | none =>
    simp only [hextent] at h
    cases h
  | some extent =>
    simp only [hextent] at h
    obtain ⟨frame, u, hwithin, h⟩ := exists_of_bind_ok h
    obtain ⟨next, w, hgoto, hpush⟩ := exists_of_bind_ok h
    have hu : u = s := by
      cases hread : s.stack.nth? extent.stop <;> rw [hread] at hwithin <;> cases hwithin
      rfl
    rw [← hu, ← stack_of_goto_ok hgoto]
    exact ⟨next, frames_of_push_ok hpush hopen⟩

theorem applyRule_rewrites (hframes : s.stack.frames = flatten xs ++ below)
    (hsize : xs.length = rule.size) (h : e.applyRule production rule s = .ok () t)
    (hopen : t.failed = false) :
    Rewrites rule.size xs below rule.reduction t.stack.frames := by
  rw [applyRule] at h
  cases hreduction : rule.reduction with
  | action =>
    simp only [hreduction, get_bind] at h
    obtain ⟨value, u, hcall, h⟩ := exists_of_bind_ok h
    rw [← stack_of_callProvider_ok hcall] at hframes
    rw [← hsize] at h
    obtain ⟨next, ht⟩ := replace_ok hframes h hopen
    rw [ht]
    exact .replaced next value (.inl rfl)
  | nothing =>
    simp only [hreduction] at h
    rw [← hsize] at h
    obtain ⟨next, ht⟩ := replace_ok hframes h hopen
    rw [ht]
    exact .replaced next default (.inr rfl)
  | seqHead | optNothing | optJust =>
    simp only [hreduction] at h
    obtain ⟨next, ht⟩ := cover_ok h hopen
    rw [ht, hframes]
    exact .covered next (by simp)
  | seqTrail =>
    simp only [hreduction] at h
    obtain ⟨_, u, hswap, hfold⟩ := exists_of_bind_ok h
    obtain ⟨a, b, fs, hs, hu⟩ := frames_of_swap_ok hswap
    obtain ⟨b', fs', hu', ht⟩ := frames_of_fold_ok hfold
    rw [hu] at hu'
    cases hu'
    rw [ht]
    exact .foldedSecond (hframes.symm.trans hs)
  | seqTrail2 =>
    simp only [hreduction] at h
    obtain ⟨_, u, hswap, h⟩ := exists_of_bind_ok h
    obtain ⟨_, w, hpop, h⟩ := exists_of_bind_ok h
    obtain ⟨_, v, hswap', hfold⟩ := exists_of_bind_ok h
    obtain ⟨a, b, fs, hs, hu⟩ := frames_of_swap_ok hswap
    have hw := frames_of_pop_ok hpop
    rw [hu, List.drop_one, List.tail_cons] at hw
    obtain ⟨a', c, fs', hw', hv⟩ := frames_of_swap_ok hswap'
    rw [hw] at hw'
    cases hw'
    obtain ⟨c', fs'', hv', ht⟩ := frames_of_fold_ok hfold
    rw [hv] at hv'
    cases hv'
    rw [ht]
    exact .foldedThird (hframes.symm.trans hs)

theorem reduce_ok (h : e.reduce production rule s = .ok () t) :
    rule.reduction.acceptsSize rule.size = true ∧ e.applyRule production rule s = .ok () t ∧
      ∃ xs below, s.stack.frames = flatten xs ++ below ∧ xs.length = rule.size := by
  have hrun : e.reduce production rule s =
      (if rule.reduction.isEbnf && !e.config.ebnf then fault (.ebnfDisabled rule.label)
      else if !rule.reduction.acceptsSize rule.size then
        fault (.badArity rule.label rule.reduction.label rule.size)
      else if 0 < rule.size && (extentBelow? s.stack s.stack.depth (rule.size - 1)).isNone then
        underflow rule.size
      else e.applyRule production rule) s := rfl
  rw [hrun] at h
  split at h
  · cases h
  · split at h
    · cases h
    next haccepts =>
      split at h
      · cases h
      next hthere =>
        refine ⟨by simpa using haccepts, h, exists_elements_of_size fun hsize => ?_⟩
        simpa [hsize, Option.isSome_iff_ne_none] using hthere

section Elements

variable {r : Reduction} {size : Nat} {frames : List (Frame S V)}

theorem Rewrites.oneAbove (h : Rewrites size xs below r frames) (ht : t.stack.frames = frames)
    (hsize : xs.length = size) (haccepts : r.acceptsSize size = true)
    (hplain : ∀ x ∈ xs.take (r.byFrame size), x.under = []) : OneAbove below t := by
  cases h with
  | replaced next value hr => exact oneAbove_of_frames (y := ⟨next, value, []⟩) ht
  | covered next hr =>
    have hall : r.byFrame size = xs.length := by
      rw [hsize]
      rcases hr with rfl | rfl | rfl <;> rfl
    rw [hall, List.take_length] at hplain
    rw [flatten_plain hplain] at ht
    refine oneAbove_of_frames (y := ⟨next, default, xs.map Element.head⟩) ?_
    simpa [Element.frames, Element.head, hsize] using ht
  | @foldedSecond a b fs hframes =>
    obtain rfl : size = 2 := by simpa [Reduction.acceptsSize] using haccepts
    obtain ⟨x, y, rfl⟩ := List.length_eq_two.mp hsize
    have hx : x.under = [] := hplain x (by simp [Reduction.byFrame])
    simp only [flatten_cons, flatten_nil, hx, List.nil_append, List.cons_append,
      List.append_nil] at hframes
    cases hframes
    exact oneAbove_of_frames (y := ⟨y.state, y.value, x.head :: y.under⟩) ht
  | @foldedThird a b c fs hframes =>
    obtain rfl : size = 3 := by simpa [Reduction.acceptsSize] using haccepts
    obtain ⟨x, y, z, rfl⟩ := List.length_eq_three.mp hsize
    have hx : x.under = [] := hplain x (by simp [Reduction.byFrame])
    have hy : y.under = [] := hplain y (by simp [Reduction.byFrame])
    simp only [flatten_cons, flatten_nil, hx, hy, List.nil_append, List.cons_append,
      List.append_nil] at hframes
    cases hframes
    exact oneAbove_of_frames (y := ⟨z.state, z.value, x.head :: z.under⟩) ht

theorem Rewrites.plain (h : Rewrites size xs below r frames) (ht : t.stack.frames = frames)
    (hsize : xs.length = size) (haccepts : r.acceptsSize size = true)
    (hflat : ∀ x ∈ xs, ∀ f ∈ x.under, f.folded = 0) (hone : OneAbove below t) :
    ∀ x ∈ xs.take (r.byFrame size), x.under = [] := by
  cases h with
  | replaced next value hr =>
    rcases hr with rfl | rfl <;> exact nofun
  | covered next hr =>
    have hlength := hone.length_eq ht
    cases xs with
    | nil => simp
    | cons x xs =>
      -- A rule that covers has at most one symbol.
      have hone : size = 1 := by
        rcases hr with rfl | rfl | rfl <;> simp [Reduction.acceptsSize] at haccepts <;>
          simp at hsize <;> omega
      subst hone
      obtain rfl := List.length_eq_zero_iff.mp (Nat.succ.inj hsize)
      intro y hy
      obtain rfl := List.mem_singleton.mp (List.mem_of_mem_take hy)
      simp at hlength
      exact List.length_eq_zero_iff.mp (by omega)
  | @foldedSecond a b fs hframes =>
    obtain rfl : size = 2 := by simpa [Reduction.acceptsSize] using haccepts
    obtain ⟨x, y, rfl⟩ := List.length_eq_two.mp hsize
    have hlength := hone.length_eq ht
    intro z hz
    obtain rfl : z = x := by simpa [Reduction.byFrame] using hz
    cases hunder : z.under with
    | nil => rfl
    | cons f under =>
      have hf : f.folded = 0 := hflat z (by simp) f (by simp [hunder])
      simp only [flatten_cons, hunder, List.cons_append] at hframes
      cases hframes
      simp [hf] at hlength
      omega
  | @foldedThird a b c fs hframes =>
    obtain rfl : size = 3 := by simpa [Reduction.acceptsSize] using haccepts
    obtain ⟨x, y, w, rfl⟩ := List.length_eq_three.mp hsize
    have hlength := hone.length_eq ht
    have hx : x.under = [] := by
      cases hunder : x.under with
      | nil => rfl
      | cons f under =>
        simp only [flatten_cons, hunder, List.cons_append] at hframes
        cases under with
        | nil =>
          cases hframes
          simp [Element.head] at hlength
          omega
        | cons g under =>
          have hg : g.folded = 0 := hflat x (by simp) g (by simp [hunder])
          cases hframes
          simp [hg] at hlength
          omega
    have hy : y.under = [] := by
      cases hunder : y.under with
      | nil => rfl
      | cons f under =>
        have hf : f.folded = 0 := hflat y (by simp) f (by simp [hunder])
        simp only [flatten_cons, hx, hunder, List.cons_append, List.nil_append] at hframes
        cases hframes
        simp [hf] at hlength
        omega
    simp [Reduction.byFrame, hx, hy]

end Elements

/-- A reduction that goes through finds its elements and, if those that it handles by frame are
plain, leaves one element in their place, which is popped as a whole. If the folded frames are plain
themselves, it does so in no other case. -/
theorem reduce_oneAbove (h : e.reduce production rule s = .ok () t) (hopen : t.failed = false) :
    ∃ xs below, s.stack.frames = flatten xs ++ below ∧ xs.length = rule.size ∧
      ((∀ x ∈ xs.take (rule.reduction.byFrame rule.size), x.under = []) → OneAbove below t) ∧
      ((∀ x ∈ xs, ∀ f ∈ x.under, f.folded = 0) → OneAbove below t →
        ∀ x ∈ xs.take (rule.reduction.byFrame rule.size), x.under = []) := by
  obtain ⟨haccepts, happly, xs, below, hframes, hsize⟩ := reduce_ok h
  have hrewrites := applyRule_rewrites hframes hsize happly hopen
  exact ⟨xs, below, hframes, hsize, hrewrites.oneAbove rfl hsize haccepts,
    hrewrites.plain rfl hsize haccepts⟩

end Reduction

section Underway

variable [Inhabited V] [DecidableEq T]

inductive Underway (e : Engine S T N P V σ) (token : T) (value : V) : Session S V σ → Prop
  | opened {s : Session S V σ} : Reached e s → s.closed = false → Underway e token value s.opened
  | decided {s t : Session S V σ} : Underway e token value s →
      e.decideToken token value s = .ok false t → Underway e token value t

end Underway

section OptionalList

def optionalList : Tabular where
  tokens := 2
  start := 0
  endToken := 1
  errorToken := none
  resuming := []
  actions := [[.reduce 2, .reduce 2], [.error, .accept], [.shift 3, .reduce 4],
    [.reduce 3, .reduce 3], [.error, .reduce 1]]
  gotos := [[none, some 1, some 4, some 2]]
  rules := [(⟨"start", 0, 1, .nothing⟩, .get 0), (⟨"all", 1, 1, .action⟩, .optional 0),
    (⟨"none", 3, 0, .seqHead⟩, .get 0), (⟨"next", 3, 2, .seqTrail⟩, .get 0),
    (⟨"list", 2, 1, .optJust⟩, .get 0)]

def listEngine : Engine Nat Nat Nat Nat Datum (List (Entry Nat Nat Nat Datum)) where
  table := optionalList.table
  provider := .journal optionalList.value
  config := { Config.ofTable optionalList.table with ebnf := true }
  reach depth := 4 * depth + 4

abbrev ListSession := Session Nat Datum (List (Entry Nat Nat Nat Datum))

def ending : ListSession :=
  (final (listEngine.perform (.postAll [(0, .int 1), (0, .int 2)])
    (final (listEngine.start [])))).opened

def gathered : ListSession := final (listEngine.decideToken 1 .nil ending)

theorem underway_ending : Underway listEngine 1 .nil ending := by
  have hstart : isOk (listEngine.start []) = true := by decide +kernel
  have hposted : isOk (listEngine.perform (.postAll [(0, .int 1), (0, .int 2)])
      (final (listEngine.start []))) = true := by decide +kernel
  obtain ⟨_, hnew⟩ := eq_ok_of_isOk hstart
  refine .opened (.perform _ (.start hnew) (completes_of_isOk hposted)) ?_
  decide +kernel

def undecided {ε : Type} : EStateM.Result ε (Session S V σ) Bool → Bool
  | .ok settled _ => !settled
  | .error _ _ => false

theorem eq_ok_of_undecided {ε : Type} {r : EStateM.Result ε (Session S V σ) Bool}
    (h : undecided r = true) : r = .ok false (final r) := by
  cases r with
  | ok settled s =>
    cases settled with
    | true => cases h
    | false => rfl
  | error halt s => cases h

theorem underway_gathered : Underway listEngine 1 .nil gathered := by
  have hdecided : undecided (listEngine.decideToken 1 .nil ending) = true := by decide +kernel
  exact .decided underway_ending (eq_ok_of_undecided hdecided)

theorem reduce_oneAbove_next :
    ∃ t x y below, Underway listEngine 1 .nil ending ∧
      listEngine.reduce 3 ⟨"next", 3, 2, .seqTrail⟩ ending = .ok () t ∧ t.failed = false ∧
      ending.stack.frames = flatten [x, y] ++ below ∧ y.under.length = 1 ∧ OneAbove below t := by
  have hok : isOk (listEngine.reduce 3 ⟨"next", 3, 2, .seqTrail⟩ ending) = true := by
    decide +kernel
  have hopen : (final (listEngine.reduce 3 ⟨"next", 3, 2, .seqTrail⟩ ending)).failed = false := by
    decide +kernel
  have houtline : ending.stack.frames.map Frame.outline = [(3, 0), (2, 1), (3, 0), (0, 0)] := by
    decide +kernel
  obtain ⟨_, hreduce⟩ := eq_ok_of_isOk hok
  obtain ⟨xs, below, hframes, hsize, habove, -⟩ := reduce_oneAbove hreduce hopen
  obtain ⟨x, y, rfl⟩ := List.length_eq_two.mp hsize
  rw [hframes] at houtline
  have hx : x.under = [] := by
    simp [Frame.outline, Element.head] at houtline
    exact houtline.1.2
  have hy : y.under.length = 1 := by
    simp [Frame.outline, Element.head, hx] at houtline
    exact houtline.2.1.2
  refine ⟨_, x, y, below, underway_ending, hreduce, hopen, hframes, hy, habove ?_⟩
  simpa [Reduction.byFrame] using hx

theorem reduce_not_oneAbove :
    ∃ t x below, Underway listEngine 1 .nil gathered ∧
      listEngine.table.rule? 4 = some ⟨"list", 2, 1, .optJust⟩ ∧
      listEngine.reduce 4 ⟨"list", 2, 1, .optJust⟩ gathered = .ok () t ∧ t.failed = false ∧
      gathered.stack.frames = flatten [x] ++ below ∧ ¬ OneAbove below t := by
  have hok : isOk (listEngine.reduce 4 ⟨"list", 2, 1, .optJust⟩ gathered) = true := by
    decide +kernel
  have hopen : (final (listEngine.reduce 4 ⟨"list", 2, 1, .optJust⟩ gathered)).failed = false := by
    decide +kernel
  have houtline : gathered.stack.frames.map Frame.outline = [(2, 2), (3, 0), (3, 0), (0, 0)] := by
    decide +kernel
  have hleft : (final (listEngine.reduce 4 ⟨"list", 2, 1, .optJust⟩ gathered)).stack.frames.map
      Frame.outline = [(4, 1), (2, 2), (3, 0), (3, 0), (0, 0)] := by decide +kernel
  obtain ⟨_, hreduce⟩ := eq_ok_of_isOk hok
  obtain ⟨head, fs, hframes, hhead, hfs⟩ := List.map_eq_cons_iff.mp houtline
  obtain ⟨head', fs', hframes', hhead', hfs'⟩ := List.map_eq_cons_iff.mp hleft
  have hfolded : head.folded = 2 := congrArg Prod.snd hhead
  have hlength : fs.length = 3 := by simpa using congrArg List.length hfs
  have hbelow : head.folded ≤ fs.length := by omega
  obtain ⟨x, hx⟩ := exists_element hbelow
  refine ⟨_, x, fs.drop head.folded, underway_gathered, rfl, hreduce, hopen, ?_, fun habove => ?_⟩
  · rw [hframes, hx]
    simp [Element.frames]
  · -- One frame would have to be folded, and one to lie below it.
    have hlength' := habove.length_eq hframes'
    have hfolded' : head'.folded = 1 := congrArg Prod.snd hhead'
    have hlength'' : fs'.length = 4 := by simpa using congrArg List.length hfs'
    rw [List.length_drop] at hlength'
    omega

end OptionalList

end Engine

end ShiftReduce
