import ShiftReduce.Proofs.Calculator.Accept
import ShiftReduce.Proofs.Engine.Run

namespace ShiftReduce.Calculator

variable {σ α β : Type}

def Actions.work (actions : Actions σ) : Work → Act σ Content
  | .done c => pure c
  | .perform call => .value <$> actions.perform call

def Tree.perform (actions : Actions σ) {n : Nonterminal} : Tree n → Act σ n.Denotation
  | .program ss => do
    let results ← ss.perform actions
    actions.program (List.filterMap id results)
  | .noStatement => pure []
  | .nextStatement ss s => do
    let results ← ss.perform actions
    let result ← s.perform actions
    return List.append results [result]
  | .evaluated e => do
    let value ← e.perform actions
    let result ← actions.statement value
    return some result
  | .empty => pure none
  | .sum e t => do
    let l ← e.perform actions
    let r ← t.perform actions
    actions.add l r
  | .difference e t => do
    let l ← e.perform actions
    let r ← t.perform actions
    actions.sub l r
  | .onlyTerm t => t.perform actions
  | .product t f => do
    let l ← t.perform actions
    let r ← f.perform actions
    actions.mul l r
  | .quotient t f => do
    let l ← t.perform actions
    let r ← f.perform actions
    actions.div l r
  | .onlyFactor f => f.perform actions
  | .literal n => (pure n : Act σ Int)
  | .group e => e.perform actions
  | .negation f => do
    let n ← f.perform actions
    actions.neg n
  | .call name es => do
    let ns ← es.perform actions
    actions.call name (List.map .ok ns)
  | .firstArgument e => do
    let n ← e.perform actions
    return [n]
  | .nextArgument es e => do
    let ns ← es.perform actions
    let n ← e.perform actions
    return List.append ns [n]

namespace Act

variable {goes goes' : α → σ → Prop} {fails : Error → σ → Prop} {x : Act σ α} {u : σ}

def Leads (goes : α → σ → Prop) (fails : Error → σ → Prop) (x : Act σ α) (u : σ) : Prop :=
  match x u with
  | .ok a u' => goes a u'
  | .error e u' => fails e u'

theorem Leads.of_ok {a : α} {u' : σ} (h : x u = .ok a u') (hgoes : goes a u') :
    x.Leads goes fails u := by
  unfold Leads
  rw [h]
  exact hgoes

theorem Leads.of_error {e : Error} {u' : σ} (h : x u = .error e u') (hfails : fails e u') :
    x.Leads goes fails u := by
  unfold Leads
  rw [h]
  exact hfails

theorem Leads.mono (h : x.Leads goes fails u) (hgoes : ∀ a u, goes a u → goes' a u) :
    x.Leads goes' fails u := by
  unfold Leads at h ⊢
  cases hx : x u with
  | ok a u' =>
    rw [hx] at h
    exact hgoes a u' h
  | error e u' =>
    rw [hx] at h
    exact h

theorem Leads.bind {goes : β → σ → Prop} {f : α → Act σ β}
    (h : Leads goes fails (x >>= f) u) :
    x.Leads (fun a => Leads goes fails (f a)) fails u := by
  unfold Leads at h ⊢
  cases hx : x u with
  | ok a u' =>
    rw [Engine.bind_of_ok hx] at h
    exact h
  | error e u' =>
    rw [Engine.bind_of_error hx] at h
    exact h

theorem Leads.map {goes : β → σ → Prop} {f : α → β} (h : x.Leads (fun a => goes (f a)) fails u) :
    Leads goes fails (f <$> x) u := by
  rw [map_eq_pure_bind]
  unfold Leads at h ⊢
  cases hx : x u with
  | ok a u' =>
    rw [hx] at h
    rw [Engine.bind_of_ok hx]
    exact h
  | error e u' =>
    rw [hx] at h
    rw [Engine.bind_of_error hx]
    exact h

end Act

namespace Tree

def solid : Nonterminal → Bool
  | .statement | .expr | .term | .factor => true
  | _ => false

theorem yield_begins {n : Nonterminal} (tree : Tree n) (hn : solid n = true) :
    ∃ t v w, tree.yield = (t, v) :: w ∧ t ∈ Nonterminal.statements.follow := by
  induction tree with
  | program | noStatement | nextStatement | firstArgument | nextArgument => cases hn
  | empty => exact ⟨_, _, _, rfl, by decide⟩
  | literal | group | negation | call => exact ⟨_, _, _, rfl, by decide⟩
  | onlyTerm t ih => exact ih rfl
  | onlyFactor f ih => exact ih rfl
  | evaluated e ih | sum e _ ih | difference e _ ih | product e _ ih | quotient e _ ih =>
    obtain ⟨t, v, w, hyield, ht⟩ := ih rfl
    simp only [yield, hyield, List.cons_append]
    exact ⟨t, v, _, rfl, ht⟩

end Tree

theorem mem_follow_term {t : Terminal} (h : t ∈ Nonterminal.expr.follow) :
    t ∈ Nonterminal.term.follow := by
  revert h
  cases t <;> decide

theorem mem_follow_expr {t : Terminal} (h : t ∈ Nonterminal.arguments.follow) :
    t ∈ Nonterminal.expr.follow := by
  revert h
  cases t <;> decide

theorem filterMap_statementValue (results : List (Option (Option Int))) :
    (results.map statementValue).filterMap Value.asStatement? = results.filterMap id := by
  rw [List.filterMap_map]
  congr 1
  funext result
  cases result <;> rfl

/-- A property of cells and the user, with the word ahead of them, that holds before a step of the
automaton when it holds after it, and before a reduction that fails with an error and a user of which
`fails` holds. -/
structure Pursued (actions : Actions σ) (goes : List Cell → σ → Word → Prop)
    (fails : Error → σ → Prop) : Prop where
  shift : ∀ {cell cells u t v next rest}, action cell.state t = .shift next →
    goes (⟨next, .value v⟩ :: cell :: cells) u rest → goes (cell :: cells) u ((t, v) :: rest)
  reduce : ∀ {cell cells u t v rest p work next below}, action cell.state t = .reduce p →
    Reduces p (cell :: cells) work next below →
    (actions.work work).Leads (fun c u => goes (⟨next, c⟩ :: below) u ((t, v) :: rest)) fails u →
    goes (cell :: cells) u ((t, v) :: rest)

namespace Pursued

variable {actions : Actions σ} {goes : List Cell → σ → Word → Prop} {fails : Error → σ → Prop}
  {cells : List Cell} {u : σ}

theorem reduce_home (h : Pursued actions goes fails) {p : Production} {c : Content} (top : List Cell)
    {cell : Cell} {t : Terminal} {v : Value} {rest : Word} {work : Work} {next : State}
    (hp : p ≠ .start) (ht : t ∈ p.rule.lhs.follow)
    (hrhs : ((⟨p.home, c⟩ :: top).map fun c => c.state.entry).reverse = p.rhs)
    (hasks : Asks p ((⟨p.home, c⟩ :: top).reverse.map Cell.content) work)
    (hgoto : goto cell.state p.rule.lhs = some next)
    (hwork : (actions.work work).Leads
      (fun c u => goes (⟨next, c⟩ :: cell :: cells) u ((t, v) :: rest)) fails u) :
    goes (⟨p.home, c⟩ :: top ++ cell :: cells) u ((t, v) :: rest) :=
  h.reduce (reduce_of_follow hp ht) (.intro hrhs hasks hgoto) hwork

theorem tree (h : Pursued actions goes fails) {n : Nonterminal} (tree : Tree n) {cell : Cell}
    {next : State} {x : Terminal} {v : Value} {rest : Word} (hgoto : goto cell.state n = some next)
    (hx : x ∈ n.follow)
    (hend : (tree.perform actions).Leads
      (fun d u => goes (⟨next, n.content d⟩ :: cell :: cells) u ((x, v) :: rest)) fails u) :
    goes (cell :: cells) u (tree.yield ++ (x, v) :: rest) := by
  -- Each hypothesis reads one subtree and leaves the rest of the word to what comes after it.
  induction tree generalizing cells cell next x v rest u with
  | program ss ih =>
    obtain ⟨q, c⟩ := cell
    obtain ⟨rfl, rfl⟩ := goto_program hgoto
    obtain rfl := List.mem_singleton.mp hx
    refine ih rfl (by decide) (hend.bind.mono fun (results : List (Option (Option Int))) u hend => ?_)
    refine h.reduce_home (p := .program) [] nofun hx rfl (.program _) rfl ?_
    rw [filterMap_statementValue]
    exact .map (.map hend)
  | noStatement =>
    obtain ⟨q, c⟩ := cell
    obtain ⟨rfl, rfl⟩ := goto_statements hgoto
    have hreduces : Reduces .noStatement (⟨.start, c⟩ :: cells) _ .statements _ :=
      @Reduces.intro .noStatement [] ⟨.start, c⟩ cells _ _ rfl .noStatement rfl
    exact h.reduce (reduce_of_follow (p := .noStatement) nofun hx) hreduces hend
  | nextStatement ss s ihss ihs =>
    obtain ⟨q, c⟩ := cell
    obtain ⟨rfl, rfl⟩ := goto_statements hgoto
    obtain ⟨t, u, w, hyield, ht⟩ := s.yield_begins rfl
    rw [Tree.yield, List.append_assoc, hyield, List.cons_append]
    refine ihss rfl ht (hend.bind.mono fun (results : List (Option (Option Int))) u hend => ?_)
    rw [← List.cons_append, ← hyield]
    refine ihs rfl hx (hend.bind.mono fun (result : Option (Option Int)) u hend => ?_)
    refine h.reduce_home (p := .nextStatement) [_] nofun hx rfl (.nextStatement _ _) rfl ?_
    show goes (⟨.statements, .list (List.map statementValue results ++ [statementValue result])⟩
      :: _) _ _
    rw [← List.map_singleton, ← List.map_append]
    exact hend
  | evaluated e ih =>
    obtain ⟨q, c⟩ := cell
    obtain ⟨rfl, rfl⟩ := goto_statement hgoto
    rw [Tree.yield, List.append_assoc, List.singleton_append]
    refine ih rfl (by decide) (hend.bind.mono fun n u hend => ?_)
    apply h.shift rfl
    exact h.reduce_home (p := .evaluated) [_] nofun hx rfl (.evaluated _ _) rfl
      (.map (.map hend.bind))
  | empty =>
    obtain ⟨q, c⟩ := cell
    obtain ⟨rfl, rfl⟩ := goto_statement hgoto
    apply h.shift rfl
    exact h.reduce_home (p := .empty) [] nofun hx rfl (.empty _) rfl hend
  | sum e t ihe iht =>
    obtain ⟨hplus, _⟩ := action_expr hgoto
    rw [Tree.yield, List.append_assoc, List.cons_append]
    refine ihe hgoto (by decide) (hend.bind.mono fun l u hend => h.shift hplus ?_)
    refine iht rfl (mem_follow_term hx) (hend.bind.mono fun r u hend => ?_)
    have hentry := congrArg (· :: [.terminal .plus, .nonterminal .term]) (goto_entry hgoto)
    exact h.reduce_home (p := .sum) [_, _] nofun hx hentry (.sum _ _ _) hgoto (.map (.map hend))
  | difference e t ihe iht =>
    obtain ⟨_, hminus⟩ := action_expr hgoto
    rw [Tree.yield, List.append_assoc, List.cons_append]
    refine ihe hgoto (by decide) (hend.bind.mono fun l u hend => h.shift hminus ?_)
    refine iht rfl (mem_follow_term hx) (hend.bind.mono fun r u hend => ?_)
    have hentry := congrArg (· :: [.terminal .minus, .nonterminal .term]) (goto_entry hgoto)
    exact h.reduce_home (p := .difference) [_, _] nofun hx hentry (.difference _ _ _) hgoto
      (.map (.map hend))
  | onlyTerm t ih =>
    refine ih (goto_term_of_expr hgoto) (mem_follow_term hx) (Act.Leads.mono hend fun n u hend => ?_)
    exact h.reduce_home (p := .onlyTerm) [] nofun hx rfl (.onlyTerm _) hgoto hend
  | product t f iht ihf =>
    obtain ⟨htimes, _⟩ := action_term hgoto
    rw [Tree.yield, List.append_assoc, List.cons_append]
    refine iht hgoto (by decide) (hend.bind.mono fun l u hend => h.shift htimes ?_)
    refine ihf rfl hx (hend.bind.mono fun r u hend => ?_)
    have hentry := congrArg (· :: [.terminal .asterisk, .nonterminal .factor]) (goto_entry hgoto)
    exact h.reduce_home (p := .product) [_, _] nofun hx hentry (.product _ _ _) hgoto
      (.map (.map hend))
  | quotient t f iht ihf =>
    obtain ⟨_, hover⟩ := action_term hgoto
    rw [Tree.yield, List.append_assoc, List.cons_append]
    refine iht hgoto (by decide) (hend.bind.mono fun l u hend => h.shift hover ?_)
    refine ihf rfl hx (hend.bind.mono fun r u hend => ?_)
    have hentry := congrArg (· :: [.terminal .slash, .nonterminal .factor]) (goto_entry hgoto)
    exact h.reduce_home (p := .quotient) [_, _] nofun hx hentry (.quotient _ _ _) hgoto
      (.map (.map hend))
  | onlyFactor f ih =>
    refine ih (goto_factor_of_term hgoto) hx (Act.Leads.mono hend fun n u hend => ?_)
    exact h.reduce_home (p := .onlyFactor) [] nofun hx rfl (.onlyFactor _) hgoto hend
  | literal n =>
    apply h.shift (action_factor hgoto).1
    exact h.reduce_home (p := .literal) [] nofun hx rfl (.literal _) hgoto hend
  | group e ih =>
    obtain ⟨_, _, _, hopen⟩ := action_factor hgoto
    rw [Tree.yield, List.cons_append, List.append_assoc, List.singleton_append]
    apply h.shift hopen
    refine ih rfl (by decide) (Act.Leads.mono hend fun n u hend => h.shift rfl ?_)
    exact h.reduce_home (p := .group) [_, _] nofun hx rfl (.group _ _ _) hgoto hend
  | negation f ih =>
    obtain ⟨_, _, hminus, _⟩ := action_factor hgoto
    apply h.shift hminus
    refine ih rfl hx (hend.bind.mono fun n u hend => ?_)
    exact h.reduce_home (p := .negation) [_] nofun hx rfl (.negation _ _) hgoto (.map (.map hend))
  | call name es ih =>
    obtain ⟨_, hname, _, _⟩ := action_factor hgoto
    rw [Tree.yield, List.cons_append, List.cons_append, List.append_assoc, List.singleton_append]
    apply h.shift hname
    apply h.shift rfl
    refine ih rfl (by decide) (hend.bind.mono fun (ns : List Int) u hend => h.shift rfl ?_)
    refine h.reduce_home (p := .call) [_, _, _] nofun hx rfl (.call _ _ _ _) hgoto
      (.map (.map ?_))
    rw [List.map_map]
    exact hend
  | firstArgument e ih =>
    obtain ⟨q, c⟩ := cell
    obtain ⟨rfl, rfl⟩ := goto_arguments hgoto
    refine ih rfl (mem_follow_expr hx) (hend.bind.mono fun n u hend => ?_)
    exact h.reduce_home (p := .firstArgument) [] nofun hx rfl (.firstArgument _) rfl hend
  | nextArgument es e ihes ihe =>
    obtain ⟨q, c⟩ := cell
    obtain ⟨rfl, rfl⟩ := goto_arguments hgoto
    rw [Tree.yield, List.append_assoc, List.cons_append]
    refine ihes rfl (by decide) (hend.bind.mono fun (ns : List Int) u hend => h.shift rfl ?_)
    refine ihe rfl (mem_follow_expr hx) (hend.bind.mono fun (n : Int) u hend => ?_)
    refine h.reduce_home (p := .nextArgument) [_, _] nofun hx rfl (.nextArgument _ _ _) rfl ?_
    show goes (⟨.arguments, .list (List.map Value.number ns ++ [.number n])⟩ :: _) _ _
    rw [← List.map_singleton, ← List.map_append]
    exact hend

end Pursued

end ShiftReduce.Calculator
