import ShiftReduce.Proofs.Calculator.Perform

namespace ShiftReduce.Calculator

structure Arithmetic where
  add : Int → Int → Except Error Int
  sub : Int → Int → Except Error Int
  mul : Int → Int → Except Error Int
  div : Int → Int → Except Error Int
  neg : Int → Except Error Int
  call : String → List Int → Except Error Int
  statement : Int → Option Int

namespace Arithmetic

variable (m : Arithmetic)

def answer : Call → Except Error Value
  | .program results => .ok (.program results)
  | .statement n => .ok (.statement (m.statement n))
  | .recovered => .ok (.statement none)
  | .add l r => .number <$> m.add l r
  | .sub l r => .number <$> m.sub l r
  | .mul l r => .number <$> m.mul l r
  | .div l r => .number <$> m.div l r
  | .neg n => .number <$> m.neg n
  | .call name arguments => .number <$> m.call name (arguments.filterMap Except.toOption)

def content : Work → Except Error Content
  | .done c => .ok c
  | .perform call => .value <$> m.answer call

end Arithmetic

def Tree.evaluate (m : Arithmetic) {n : Nonterminal} : Tree n → Except Error n.Denotation
  | .program ss => do
    let results ← ss.evaluate m
    return List.filterMap id results
  | .noStatement => .ok []
  | .nextStatement ss s => do
    let results ← ss.evaluate m
    let result ← s.evaluate m
    return List.append results [result]
  | .evaluated e => do
    let value ← e.evaluate m
    return some (m.statement value)
  | .empty => .ok none
  | .sum e t => do
    let l ← e.evaluate m
    let r ← t.evaluate m
    m.add l r
  | .difference e t => do
    let l ← e.evaluate m
    let r ← t.evaluate m
    m.sub l r
  | .onlyTerm t => t.evaluate m
  | .product t f => do
    let l ← t.evaluate m
    let r ← f.evaluate m
    m.mul l r
  | .quotient t f => do
    let l ← t.evaluate m
    let r ← f.evaluate m
    m.div l r
  | .onlyFactor f => f.evaluate m
  | .literal n => .ok n
  | .group e => e.evaluate m
  | .negation f => do
    let n ← f.evaluate m
    m.neg n
  | .call name es => do
    let ns ← es.evaluate m
    m.call name ns
  | .firstArgument e => do
    let n ← e.evaluate m
    return [n]
  | .nextArgument es e => do
    let ns ← es.evaluate m
    let n ← e.evaluate m
    return List.append ns [n]

def Leads {α : Type} (goes : α → Prop) (fails : Error → Prop) : Except Error α → Prop
  | .ok a => goes a
  | .error e => fails e

structure Traced (m : Arithmetic) (goes : List Cell → Word → Prop) (fails : Error → Prop) :
    Prop where
  shift : ∀ {cell cells t v next rest}, action cell.state t = .shift next →
    goes (⟨next, .value v⟩ :: cell :: cells) rest → goes (cell :: cells) ((t, v) :: rest)
  reduce : ∀ {cell cells t v rest p work next below}, action cell.state t = .reduce p →
    Reduces p (cell :: cells) work next below →
    Leads (fun c => goes (⟨next, c⟩ :: below) ((t, v) :: rest)) fails (m.content work) →
    goes (cell :: cells) ((t, v) :: rest)

section Actions

variable {σ α β : Type} {m : Arithmetic}

def Act.ofExcept (x : Except Error α) : Act σ α := fun u =>
  match x with
  | .ok a => .ok a u
  | .error e => .error e u

theorem Act.ofExcept_map (f : α → β) (x : Except Error α) :
    (Act.ofExcept (f <$> x) : Act σ β) = f <$> Act.ofExcept x := by
  cases x <;> rfl

def Arithmetic.toActions (m : Arithmetic) : Actions σ where
  add l r := .ofExcept (m.add l r)
  sub l r := .ofExcept (m.sub l r)
  mul l r := .ofExcept (m.mul l r)
  div l r := .ofExcept (m.div l r)
  neg n := .ofExcept (m.neg n)
  call name arguments := .ofExcept (m.call name (arguments.filterMap Except.toOption))
  statement n := pure (m.statement n)

theorem Arithmetic.work_toActions (m : Arithmetic) (work : Work) :
    (m.toActions : Actions σ).work work = .ofExcept (m.content work) := by
  cases work with
  | done c => rfl
  | perform call =>
    rw [content, Act.ofExcept_map, Actions.work]
    congr 1
    cases call with
    | program | statement | recovered => rfl
    | add | sub | mul | div | neg | call => exact (Act.ofExcept_map _ _).symm

theorem filterMap_ok (ns : List Int) :
    (ns.map (Except.ok : Int → Except Error Int)).filterMap Except.toOption = ns := by
  rw [List.filterMap_map]
  exact List.filterMap_some

theorem Tree.perform_toActions (m : Arithmetic) {n : Nonterminal} (tree : Tree n) :
    tree.perform (m.toActions : Actions σ) = .ofExcept (tree.evaluate m) := by
  induction tree with
  | noStatement | empty | literal => rfl
  | onlyTerm t ih | onlyFactor f ih | group e ih => exact ih
  | program ss ih | evaluated ss ih | negation ss ih | firstArgument ss ih =>
    rw [perform, evaluate, ih]
    cases ss.evaluate m <;> rfl
  | call name es ih =>
    rw [perform, evaluate, ih]
    cases es.evaluate m with
    | error e => rfl
    | ok ns => exact congrArg (fun ns => Act.ofExcept (m.call name ns)) (filterMap_ok ns)
  | nextStatement ss s ih ih' | sum ss s ih ih' | difference ss s ih ih' | product ss s ih ih'
  | quotient ss s ih ih' | nextArgument ss s ih ih' =>
    rw [perform, evaluate, ih, ih']
    cases ss.evaluate m with
    | error e => rfl
    | ok a => cases s.evaluate m <;> rfl

theorem Act.leads_ofExcept {goes : α → σ → Prop} {fails : Error → σ → Prop} {x : Except Error α}
    {u : σ} (h : Calculator.Leads (fun a => goes a u) (fun e => fails e u) x) :
    (Act.ofExcept x).Leads goes fails u := by
  cases x <;> exact h

theorem Act.of_leads_ofExcept {goes : α → σ → Prop} {fails : Error → σ → Prop} {x : Except Error α}
    {u : σ} (h : (Act.ofExcept x).Leads goes fails u) :
    Calculator.Leads (fun a => goes a u) (fun e => fails e u) x := by
  cases x <;> exact h

end Actions

namespace Traced

variable {m : Arithmetic} {goes : List Cell → Word → Prop} {fails : Error → Prop}
  {cells : List Cell}

theorem pursued (h : Traced m goes fails) :
    Pursued (m.toActions : Actions Unit) (fun cells _ w => goes cells w) (fun e _ => fails e) where
  shift := h.shift
  reduce haction hreduces hwork := by
    rw [m.work_toActions] at hwork
    exact h.reduce haction hreduces (Act.of_leads_ofExcept hwork)

theorem tree (h : Traced m goes fails) {n : Nonterminal} (tree : Tree n) {cell : Cell}
    {next : State} {x : Terminal} {v : Value} {rest : Word} (hgoto : goto cell.state n = some next)
    (hx : x ∈ n.follow)
    (hend : Leads (fun d => goes (⟨next, n.content d⟩ :: cell :: cells) ((x, v) :: rest)) fails
      (tree.evaluate m)) : goes (cell :: cells) (tree.yield ++ (x, v) :: rest) := by
  refine h.pursued.tree tree hgoto hx (u := ()) ?_
  rw [tree.perform_toActions]
  exact Act.leads_ofExcept hend

end Traced

end ShiftReduce.Calculator
