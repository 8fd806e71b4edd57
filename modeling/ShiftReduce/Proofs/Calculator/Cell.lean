import ShiftReduce.Calculator.Client
import ShiftReduce.Proofs.Calculator.Path
import ShiftReduce.Proofs.Frame.Element
import Mathlib.Data.List.Forall2

/-!
The parse stack of the calculator as a textbook has it: one cell for each symbol, and a sequence is
the value of its cell. What the engine keeps in frames stands for such cells.
-/

namespace ShiftReduce.Calculator

inductive Content : Type
  | value (v : Value)
  | list (vs : List Value)

namespace Content

def head : Content → Value
  | .value v => v
  | .list _ => .nothing

def items : Content → List Value
  | .value _ => []
  | .list vs => vs

end Content

structure Cell where
  state : State
  content : Content

inductive Work : Type
  | done (content : Content)
  | perform (call : Call)

def Work.request : Work → Request
  | .done content => .copy content.head
  | .perform call => .perform call

inductive Asks : Production → List Content → Work → Prop
  | program (vs) : Asks .program [.list vs] (.perform (.program (vs.filterMap Value.asStatement?)))
  | noStatement : Asks .noStatement [] (.done (.list []))
  | nextStatement (vs v) : Asks .nextStatement [.list vs, .value v] (.done (.list (vs ++ [v])))
  | evaluated (n c) : Asks .evaluated [.value (.number n), c] (.perform (.statement n))
  | skipped (c d) : Asks .skipped [c, d] (.perform .recovered)
  | sum (m c n) : Asks .sum [.value (.number m), c, .value (.number n)] (.perform (.add m n))
  | difference (m c n) :
      Asks .difference [.value (.number m), c, .value (.number n)] (.perform (.sub m n))
  | onlyTerm (v) : Asks .onlyTerm [.value v] (.done (.value v))
  | product (m c n) :
      Asks .product [.value (.number m), c, .value (.number n)] (.perform (.mul m n))
  | quotient (m c n) :
      Asks .quotient [.value (.number m), c, .value (.number n)] (.perform (.div m n))
  | onlyFactor (v) : Asks .onlyFactor [.value v] (.done (.value v))
  | literal (v) : Asks .literal [.value v] (.done (.value v))
  | group (c v d) : Asks .group [c, .value v, d] (.done (.value v))
  | negation (c n) : Asks .negation [c, .value (.number n)] (.perform (.neg n))
  | call (f c vs d) :
      Asks .call [.value (.name f), c, .list vs, d] (.perform (.call f (vs.map Value.asNumber)))
  | firstArgument (v) : Asks .firstArgument [.value v] (.done (.list [v]))
  | nextArgument (vs u v) :
      Asks .nextArgument [.list vs, .value u, .value v] (.done (.list (vs ++ [v])))
  | empty (c) : Asks .empty [c] (.done (.value .nothing))

theorem Asks.unique {p : Production} {contents : List Content} {work work' : Work}
    (h : Asks p contents work) (h' : Asks p contents work') : work = work' := by
  cases h <;> cases h' <;> rfl

def Call.Answers : Call → Value → Prop
  | .program _, v => ∃ results, v = .program results
  | .statement _, v | .recovered, v => ∃ result, v = .statement result
  | .add .., v | .sub .., v | .mul .., v | .div .., v | .neg _, v | .call .., v =>
    ∃ n, v = .number n

theorem Actions.perform_answers {σ : Type} {actions : Actions σ} {call : Call} {u u' : σ}
    {v : Value} (h : actions.perform call u = .ok v u') : call.Answers v := by
  have hmap : ∀ {α : Type} {f : α → Value} {act : Act σ α}, (f <$> act) u = .ok v u' →
      ∃ a, v = f a := by
    intro α f act h
    rw [map_eq_pure_bind] at h
    simp only [bind, EStateM.bind] at h
    split at h
    next a _ _ =>
      cases h
      exact ⟨a, rfl⟩
    next => cases h
  cases call with
  | recovered =>
    cases h
    exact ⟨_, rfl⟩
  | _ => exact hmap h

inductive Work.Yields : Work → Content → Prop
  | done (c) : Yields (.done c) c
  | performed {call v} : call.Answers v → Yields (.perform call) (.value v)

theorem Asks.plain {p : Production} {contents : List Content} {work : Work} {c : Content}
    (h : Asks p contents work) (haction : p.rule.reduction = .action) (hc : work.Yields c) :
    c = .value c.head := by
  cases h with
  | noStatement | nextStatement | firstArgument | nextArgument | empty => cases haction
  | _ =>
    cases hc
    rfl

/-- Reducing by a production: the work it asks for, the state that is entered then, and the cells
that are left below. -/
inductive Reduces (p : Production) : List Cell → Work → State → List Cell → Prop
  | intro {top : List Cell} {cell : Cell} {below : List Cell} {work : Work} {next : State} :
      (top.map fun c => c.state.entry).reverse = p.rhs →
      Asks p (top.reverse.map Cell.content) work →
      goto cell.state p.rule.lhs = some next →
      Reduces p (top ++ cell :: below) work next (cell :: below)

theorem length_top {p : Production} {top : List Cell}
    (h : (top.map fun c => c.state.entry).reverse = p.rhs) : top.length = p.rule.size := by
  rw [← p.length_rhs, ← h, List.length_reverse, List.length_map]

theorem Reduces.unique {p : Production} {cells below below' : List Cell} {work work' : Work}
    {next next' : State} (h : Reduces p cells work next below)
    (h' : Reduces p cells work' next' below') : work = work' ∧ next = next' ∧ below = below' := by
  obtain ⟨htop, hasks, hgoto⟩ := h
  generalize hcells : _ ++ _ :: _ = cells at h'
  obtain ⟨htop', hasks', hgoto'⟩ := h'
  obtain ⟨rfl, hrest⟩ := List.append_inj hcells ((length_top htop).trans (length_top htop').symm)
  obtain ⟨rfl, rfl⟩ := List.cons.inj hrest
  rw [hgoto] at hgoto'
  exact ⟨hasks.unique hasks', Option.some.inj hgoto', rfl⟩

namespace Reduces

variable {p : Production} {cells below : List Cell} {work : Work} {next : State}

theorem path (h : Reduces p cells work next below) (hpath : Path (cells.map Cell.state)) :
    Path (next :: below.map Cell.state) := by
  obtain ⟨htop, hasks, hgoto⟩ := h
  rw [List.map_append] at hpath
  exact hpath.of_append.advance (.nonterminal p.rule.lhs) hgoto

theorem entry_eq (h : Reduces p cells work next below) : next.entry = .nonterminal p.rule.lhs := by
  obtain ⟨htop, hasks, hgoto⟩ := h
  exact goto_entry hgoto

theorem below_subset (h : Reduces p cells work next below) : below ⊆ cells := by
  obtain ⟨htop, hasks, hgoto⟩ := h
  exact List.subset_append_right _ _

theorem exists_error (h : Reduces p cells (.perform .recovered) next below) :
    ∃ cell ∈ cells, cell.state.entry = .terminal .error := by
  obtain ⟨htop, hasks, hgoto⟩ := h
  have hp : p = .skipped := by
    generalize List.map Cell.content _ = contents at hasks
    cases hasks
    rfl
  subst hp
  have hmem : Symbol.terminal .error ∈ Production.skipped.rhs := List.mem_cons_self
  rw [← htop, List.mem_reverse, List.mem_map] at hmem
  obtain ⟨cell, hcell, hentry⟩ := hmem
  exact ⟨cell, List.mem_append_left _ hcell, hentry⟩

end Reduces

inductive Stands : Element State Value → Cell → Prop
  | value (state v) : Stands ⟨state, v, []⟩ ⟨state, .value v⟩
  | list (state under) :
      Stands ⟨state, .nothing, under⟩ ⟨state, .list (under.reverse.map Frame.value)⟩

namespace Stands

variable {x : Element State Value} {cell : Cell}

theorem state_eq (h : Stands x cell) : x.state = cell.state := by
  cases h <;> rfl

theorem value_eq (h : Stands x cell) : x.value = cell.content.head := by
  cases h <;> rfl

theorem of_value {q : State} {v : Value} (h : Stands x ⟨q, .value v⟩) : x = ⟨q, v, []⟩ := by
  cases h
  rfl

theorem of_list {q : State} {vs : List Value} (h : Stands x ⟨q, .list vs⟩) :
    ∃ under, x = ⟨q, .nothing, under⟩ ∧ vs = under.reverse.map Frame.value := by
  cases h with
  | list _ under => exact ⟨under, rfl, rfl⟩

theorem fold {q q' : State} {v : Value} {under : List (Frame State Value)} :
    Stands ⟨q', .nothing, ⟨q, v, 0⟩ :: under⟩
      ⟨q', .list (under.reverse.map Frame.value ++ [v])⟩ := by
  have hvalues : under.reverse.map Frame.value ++ [v] =
      (⟨q, v, 0⟩ :: under).reverse.map Frame.value := by simp
  rw [hvalues]
  exact .list _ _

theorem items_eq (h : Stands x cell) : x.under.reverse.map Frame.value = cell.content.items := by
  cases h <;> rfl

end Stands

def Shows (frames : List (Frame State Value)) (cells : List Cell) : Prop :=
  ∃ xs, frames = flatten xs ∧ List.Forall₂ Stands xs cells

theorem Shows.length_le {frames : List (Frame State Value)} {cells : List Cell}
    (h : Shows frames cells) : cells.length ≤ frames.length := by
  obtain ⟨xs, rfl, hxs⟩ := h
  rw [← hxs.length_eq]
  exact length_le_flatten xs

theorem Shows.split {frames : List (Frame State Value)} {top below : List Cell} {cell : Cell}
    (h : Shows frames (top ++ cell :: below)) :
    ∃ xs y ys, frames = flatten (xs ++ y :: ys) ∧ List.Forall₂ Stands xs top ∧ Stands y cell ∧
      List.Forall₂ Stands ys below := by
  obtain ⟨xs, rfl, hxs⟩ := h
  have htop := List.forall₂_take_append xs top (cell :: below) hxs
  have hrest := List.forall₂_drop_append xs top (cell :: below) hxs
  obtain ⟨y, ys, hy, hys, hdrop⟩ := List.forall₂_cons_right_iff.mp hrest
  refine ⟨_, y, ys, ?_, htop, hy, hys⟩
  rw [← hdrop, List.take_append_drop]

section Operands

variable {stack : Stack (Frame State Value)} {xs ys : List (Element State Value)} {top : List Cell}

theorem operand {i : Nat} {c : Content} (h : stack.frames = flatten (xs ++ ys))
    (htop : List.Forall₂ Stands xs top) (hc : (top.reverse.map Cell.content)[i]? = some c) :
    Args.get? ⟨stack, xs.length⟩ i = some c.head ∧
      Args.sequence? ⟨stack, xs.length⟩ i = some c.items := by
  rw [List.getElem?_map, Option.map_eq_some_iff] at hc
  obtain ⟨cell, hcell, rfl⟩ := hc
  obtain ⟨hi, rfl⟩ := List.getElem?_eq_some_iff.mp hcell
  obtain ⟨hlength, hstands⟩ := List.forall₂_iff_get.mp (List.forall₂_reverse_iff.mpr htop)
  have hi' : i < xs.reverse.length := hlength ▸ hi
  have hx : Stands xs.reverse[i] top.reverse[i] := hstands i hi' hi
  have hsplit : xs = (xs.reverse.drop (i + 1)).reverse ++
      xs.reverse[i] :: (xs.reverse.take i).reverse := by
    have hreverse : xs.reverse = xs.reverse.take i ++ xs.reverse[i] :: xs.reverse.drop (i + 1) := by
      rw [List.getElem_cons_drop, List.take_append_drop]
    have := congrArg List.reverse hreverse
    simpa only [List.reverse_reverse, List.reverse_append, List.reverse_cons, List.append_assoc,
      List.singleton_append] using this
  rw [hsplit, List.append_assoc, List.cons_append] at h
  have hplace : i + (xs.reverse.drop (i + 1)).reverse.length + 1 = xs.length := by
    rw [List.length_reverse, List.length_drop]
    rw [List.length_reverse] at hi' ⊢
    omega
  rw [← hx.value_eq, ← hx.items_eq]
  exact ⟨get?_flatten h hplace, sequence?_flatten h hplace⟩

theorem binary?_eq {args : Operands} {m n : Int} (make : Int → Int → Call)
    (hm : args.get? 0 = some (.number m)) (hn : args.get? 2 = some (.number n)) :
    Request.binary? args make = some (.ok (.perform (make m n))) := by
  simp only [Request.binary?, Request.number?, hm, hn]
  rfl

theorem unary?_eq {args : Operands} {n : Int} {i : Nat} (make : Int → Call)
    (hn : args.get? i = some (.number n)) :
    Request.unary? args make i = some (.ok (.perform (make n))) := by
  simp only [Request.unary?, Request.number?, hn]
  rfl

theorem copy?_eq {args : Operands} {v : Value} {i : Nat} (hv : args.get? i = some v) :
    Request.copy? args i = some (.ok (.copy v)) := by
  rw [Request.copy?, hv]
  rfl

theorem request_eq {p : Production} {work : Work} (h : stack.frames = flatten (xs ++ ys))
    (htop : List.Forall₂ Stands xs top) (haction : p.rule.reduction = .action)
    (hasks : Asks p (top.reverse.map Cell.content) work) :
    Request.of? ⟨stack, xs.length⟩ p = some (.ok work.request) := by
  have hoperand : ∀ i c, _ := fun i c => operand (i := i) (c := c) h htop
  revert hoperand hasks
  generalize top.reverse.map Cell.content = contents
  intro hasks hoperand
  cases hasks with
  | program vs =>
    rw [Request.of?, Request.program?, (hoperand 0 _ rfl).2]
    rfl
  | evaluated n c => exact unary?_eq .statement (hoperand 0 _ rfl).1
  | skipped c d => rfl
  | sum m c n => exact binary?_eq .add (hoperand 0 _ rfl).1 (hoperand 2 _ rfl).1
  | difference m c n => exact binary?_eq .sub (hoperand 0 _ rfl).1 (hoperand 2 _ rfl).1
  | product m c n => exact binary?_eq .mul (hoperand 0 _ rfl).1 (hoperand 2 _ rfl).1
  | quotient m c n => exact binary?_eq .div (hoperand 0 _ rfl).1 (hoperand 2 _ rfl).1
  | negation c n => exact unary?_eq .neg (hoperand 1 _ rfl).1
  | onlyTerm v => exact copy?_eq (hoperand 0 _ rfl).1
  | onlyFactor v => exact copy?_eq (hoperand 0 _ rfl).1
  | literal v => exact copy?_eq (hoperand 0 _ rfl).1
  | group c v d => exact copy?_eq (hoperand 1 _ rfl).1
  | call f c vs d =>
    rw [Request.of?, Request.call?, (hoperand 0 _ rfl).1, (hoperand 2 _ rfl).2]
    rfl
  | noStatement | nextStatement | firstArgument | nextArgument | empty => cases haction

end Operands

end ShiftReduce.Calculator
