import ShiftReduce.Proofs.Calculator.Perform

namespace ShiftReduce.Calculator

variable {σ α β : Type}

def Call.production : Call → Production
  | .program _ => .program
  | .statement _ => .evaluated
  | .recovered => .skipped
  | .add .. => .sum
  | .sub .. => .difference
  | .mul .. => .product
  | .div .. => .quotient
  | .neg _ => .negation
  | .call .. => .call

structure Made where
  call : Call
  answer : Except Error Value

namespace Made

def production (made : Made) : Production := made.call.production

def Succeeded (made : Made) : Prop := ∃ v, made.answer = .ok v

end Made

def Act.logged (call : Call) (value : α → Value) (act : Act σ α) : Act (σ × List Made) α := fun u =>
  match act u.1 with
  | .ok a user => .ok a (user, u.2 ++ [⟨call, .ok (value a)⟩])
  | .error e user => .error e (user, u.2 ++ [⟨call, .error e⟩])

def Actions.logged (actions : Actions σ) : Actions (σ × List Made) where
  add lhs rhs := (actions.add lhs rhs).logged (.add lhs rhs) .number
  sub lhs rhs := (actions.sub lhs rhs).logged (.sub lhs rhs) .number
  mul lhs rhs := (actions.mul lhs rhs).logged (.mul lhs rhs) .number
  div lhs rhs := (actions.div lhs rhs).logged (.div lhs rhs) .number
  neg operand := (actions.neg operand).logged (.neg operand) .number
  call name arguments := (actions.call name arguments).logged (.call name arguments) .number
  program statements := (actions.program statements).logged (.program statements) .program
  statement value := (actions.statement value).logged (.statement value) .statement
  recovered u :=
    let (result, user) := actions.recovered u.1
    (result, (user, u.2 ++ [⟨.recovered, .ok (.statement result)⟩]))

def Tree.operations {n : Nonterminal} : Tree n → List Production
  | .program ss => ss.operations ++ [.program]
  | .noStatement | .empty | .literal _ => []
  | .nextStatement ss s => ss.operations ++ s.operations
  | .evaluated e => e.operations ++ [.evaluated]
  | .sum e t => e.operations ++ t.operations ++ [.sum]
  | .difference e t => e.operations ++ t.operations ++ [.difference]
  | .onlyTerm t => t.operations
  | .product t f => t.operations ++ f.operations ++ [.product]
  | .quotient t f => t.operations ++ f.operations ++ [.quotient]
  | .onlyFactor f => f.operations
  | .group e => e.operations
  | .negation f => f.operations ++ [.negation]
  | .call _ es => es.operations ++ [.call]
  | .firstArgument e => e.operations
  | .nextArgument es e => es.operations ++ e.operations

/-- The calls made after those of the log: one for each of the operations in turn, or up to the
first that fails. -/
inductive Traverses (operations : List Production) (log : List Made) :
    EStateM.Result Error (σ × List Made) α → Prop
  | whole {a : α} {user : σ} {made : List Made} : made.map Made.production = operations →
      (∀ m ∈ made, m.Succeeded) → Traverses operations log (.ok a (user, log ++ made))
  | cut {e : Error} {user : σ} {made : List Made} {call : Call} :
      (made ++ [Made.mk call (.error e)]).map Made.production <+: operations →
      (∀ m ∈ made, m.Succeeded) →
      Traverses operations log (.error e (user, log ++ (made ++ [⟨call, .error e⟩])))

def Act.Traverses (operations : List Production) (act : Act (σ × List Made) α) : Prop :=
  ∀ u, Calculator.Traverses operations u.2 (act u)

namespace Act.Traverses

variable {operations operations' : List Production} {act : Act (σ × List Made) α}

theorem answer (a : α) : Act.Traverses [] (pure a : Act (σ × List Made) α) := by
  intro u
  have hwhole : Calculator.Traverses [] u.2 (.ok a (u.1, u.2 ++ []) :
      EStateM.Result Error (σ × List Made) α) :=
    .whole rfl (List.forall_mem_nil _)
  rwa [List.append_nil] at hwhole

theorem bind {f : α → Act (σ × List Made) β} (h : act.Traverses operations)
    (hf : ∀ a, (f a).Traverses operations') :
    Act.Traverses (operations ++ operations') (act >>= f) := by
  intro u
  have hact := h u
  generalize hrun : act u = r at hact
  cases hact with
  | @whole a user made hmade hsucceeded =>
    have hrest := hf a (user, u.2 ++ made)
    rw [Engine.bind_of_ok hrun]
    generalize f a (user, u.2 ++ made) = r at hrest
    cases hrest with
    | @whole b user' made' hmade' hsucceeded' =>
      rw [List.append_assoc]
      refine .whole ?_ (List.forall_mem_append.mpr ⟨hsucceeded, hsucceeded'⟩)
      rw [List.map_append, hmade, hmade']
    | @cut e user' made' call hmade' hsucceeded' =>
      rw [List.append_assoc, ← List.append_assoc made]
      refine .cut ?_ (List.forall_mem_append.mpr ⟨hsucceeded, hsucceeded'⟩)
      rw [List.append_assoc, List.map_append, hmade]
      exact (List.prefix_append_right_inj _).mpr hmade'
  | cut hmade hsucceeded =>
    rw [Engine.bind_of_error hrun]
    exact .cut (hmade.trans (List.prefix_append _ _)) hsucceeded

theorem logged (call : Call) (value : α → Value) (act : Act σ α) :
    (act.logged call value).Traverses [call.production] := by
  intro u
  rw [Act.logged]
  cases act u.1 with
  | ok a user =>
    have hsucceeded : ∀ m ∈ [Made.mk call (.ok (value a))], m.Succeeded :=
      List.forall_mem_singleton.mpr ⟨_, rfl⟩
    exact .whole rfl hsucceeded
  | error e user =>
    have hmade : ([] ++ [Made.mk call (.error e)]).map Made.production <+: [call.production] :=
      List.prefix_rfl
    exact .cut hmade (List.forall_mem_nil _)

theorem pure {f : α → β} (h : act.Traverses operations) :
    Act.Traverses operations (act >>= fun a => Pure.pure (f a)) := by
  rw [← List.append_nil operations]
  exact h.bind fun a => answer (f a)

theorem binary {act' : Act (σ × List Made) β} {γ : Type} {f : α → β → Act (σ × List Made) γ}
    {call : List Production} (h : act.Traverses operations) (h' : act'.Traverses operations')
    (hf : ∀ a b, (f a b).Traverses call) :
    Act.Traverses (operations ++ operations' ++ call) (act >>= fun a => act' >>= fun b => f a b) := by
  rw [List.append_assoc]
  exact h.bind fun a => h'.bind fun b => hf a b

end Act.Traverses

theorem Tree.perform_traverses (actions : Actions σ) {n : Nonterminal} (tree : Tree n) :
    (tree.perform actions.logged).Traverses tree.operations := by
  induction tree with
  | noStatement | empty | literal => exact .answer _
  | onlyTerm t ih | onlyFactor t ih | group t ih => exact ih
  | program ss ih => exact ih.bind fun _ => .logged (.program _) _ _
  | evaluated e ih => exact ih.bind fun _ => (Act.Traverses.logged (.statement _) _ _).pure
  | sum e t ih ih' => exact ih.binary ih' fun _ _ => .logged (.add _ _) _ _
  | difference e t ih ih' => exact ih.binary ih' fun _ _ => .logged (.sub _ _) _ _
  | product e t ih ih' => exact ih.binary ih' fun _ _ => .logged (.mul _ _) _ _
  | quotient e t ih ih' => exact ih.binary ih' fun _ _ => .logged (.div _ _) _ _
  | negation f ih => exact ih.bind fun _ => .logged (.neg _) _ _
  | call name es ih => exact ih.bind fun _ => .logged (.call _ _) _ _
  | firstArgument e ih => exact ih.pure
  | nextStatement ss s ih ih' | nextArgument ss s ih ih' => exact ih.bind fun _ => ih'.pure

end ShiftReduce.Calculator
