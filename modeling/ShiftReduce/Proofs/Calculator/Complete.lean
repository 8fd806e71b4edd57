import ShiftReduce.Proofs.Calculator.Arithmetic

namespace ShiftReduce.Calculator

variable {a : Algebra} {cells : List Cell}

def Algebra.arithmetic (a : Algebra) : Arithmetic where
  add l r := .ok (a.add l r)
  sub l r := .ok (a.sub l r)
  mul l r := .ok (a.mul l r)
  div l r := .ok (a.div l r)
  neg n := .ok (a.neg n)
  call name ns := .ok (a.call name ns)
  statement := a.statement

theorem Algebra.content_arithmetic (a : Algebra) (work : Work) :
    a.arithmetic.content work = .ok (a.content work) := by
  cases work with
  | done c => rfl
  | perform call => cases call <;> rfl

theorem Tree.evaluate_arithmetic (a : Algebra) {n : Nonterminal} (tree : Tree n) :
    tree.evaluate a.arithmetic = .ok (tree.eval a) := by
  induction tree with
  | noStatement | empty | literal => rfl
  | onlyTerm t ih | onlyFactor f ih | group e ih => exact ih
  | program ss ih | evaluated e ih | negation f ih | call name es ih | firstArgument e ih =>
    rw [Tree.evaluate, ih]
    rfl
  | nextStatement ss s ih ih' | sum ss s ih ih' | difference ss s ih ih' | product ss s ih ih'
  | quotient ss s ih ih' | nextArgument ss s ih ih' =>
    rw [Tree.evaluate, ih, ih']
    rfl

theorem Accepts.traced (a : Algebra) (result : Value) :
    Traced a.arithmetic (fun cells w => Accepts a cells w result) (fun _ => False) where
  shift := .shift
  reduce haction hreduces hend := by
    rw [a.content_arithmetic] at hend
    exact .reduce haction hreduces hend

theorem Accepts.of_tree {n : Nonterminal} (tree : Tree n) {cell : Cell} {next : State}
    {x : Terminal} {v result : Value} {rest : Word} (hgoto : goto cell.state n = some next)
    (hx : x ∈ n.follow)
    (h : Accepts a (⟨next, n.content (tree.eval a)⟩ :: cell :: cells) ((x, v) :: rest) result) :
    Accepts a (cell :: cells) (tree.yield ++ (x, v) :: rest) result := by
  apply (Accepts.traced a result).tree tree hgoto hx
  rw [tree.evaluate_arithmetic]
  exact h

end ShiftReduce.Calculator
