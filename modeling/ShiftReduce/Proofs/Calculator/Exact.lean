import ShiftReduce.Proofs.Calculator.Meaning
import ShiftReduce.Proofs.Calculator.Order
import Mathlib.Algebra.BigOperators.Group.List.Basic
import Mathlib.Algebra.Order.Group.Unbundled.Int

/-!
Checked arithmetic against exact arithmetic. The stock actions compute in 64 bits and refuse what
does not fit. On a program they come to its exact results when no operation goes wrong in exact
arithmetic, and to the error of the first one that does otherwise.
-/

namespace ShiftReduce.Calculator

def builtins : List String := ["abs", "min", "max", "sum"]

def builtin : String → List Int → Int
  | "abs", ns => |ns.headD 0|
  | "min", ns => ns.min?.getD 0
  | "max", ns => ns.max?.getD 0
  | "sum", ns => ns.sum
  | _, _ => 0

def exact : Algebra where
  add := (· + ·)
  sub := (· - ·)
  mul := (· * ·)
  div := Int.tdiv
  neg := (- ·)
  call := builtin
  statement := some

/-- An operator or a call of a function, with the exact values of its operands. -/
inductive Node : Type
  | add (lhs rhs : Int)
  | sub (lhs rhs : Int)
  | mul (lhs rhs : Int)
  | div (lhs rhs : Int)
  | neg (operand : Int)
  | call (name : String) (arguments : List Int)
  deriving DecidableEq

def Tree.nodes {n : Nonterminal} : Tree n → List Node
  | .program ss => ss.nodes
  | .noStatement | .empty | .literal _ => []
  | .nextStatement ss s => ss.nodes ++ s.nodes
  | .evaluated e => e.nodes
  | .sum e t => e.nodes ++ (t.nodes ++ [.add (e.eval exact) (t.eval exact)])
  | .difference e t => e.nodes ++ (t.nodes ++ [.sub (e.eval exact) (t.eval exact)])
  | .onlyTerm t => t.nodes
  | .product t f => t.nodes ++ (f.nodes ++ [.mul (t.eval exact) (f.eval exact)])
  | .quotient t f => t.nodes ++ (f.nodes ++ [.div (t.eval exact) (f.eval exact)])
  | .onlyFactor f => f.nodes
  | .group e => e.nodes
  | .negation f => f.nodes ++ [.neg (f.eval exact)]
  | .call name es => es.nodes ++ [.call name (es.eval exact)]
  | .firstArgument e => e.nodes
  | .nextArgument es e => es.nodes ++ e.nodes

namespace Node

/-- The numbers that a node goes through: its result, and the running totals of a sum. -/
def Reaches : Node → Int → Prop
  | .add lhs rhs, n => n = lhs + rhs
  | .sub lhs rhs, n => n = lhs - rhs
  | .mul lhs rhs, n => n = lhs * rhs
  | .div lhs rhs, n => rhs ≠ 0 ∧ n = lhs.tdiv rhs
  | .neg operand, n => n = -operand
  | .call "abs" ns, n => ∃ argument, ns = [argument] ∧ n = |argument|
  | .call "min" ns, n => ns.min? = some n
  | .call "max" ns, n => ns.max? = some n
  | .call "sum" ns, n => ∃ k, n = (ns.take k).sum
  | .call _ _, _ => False

inductive Offends : Node → Error → Prop
  | division (lhs) : Offends (.div lhs 0) .divisionByZero
  | overflow {node n} : node.Reaches n → ¬ InRange n → Offends node .overflow
  | unknown {name} (ns) : name ∉ builtins →
      Offends (.call name ns) (.unknownFunction name)
  | arity {name} {ns : List Int} : name = "abs" → ns.length ≠ 1 →
      Offends (.call name ns) (.arity "abs" "1" ns.length)

def InOrder (node : Node) : Prop := ∀ e, ¬ node.Offends e

end Node

section Numerals

variable {n : Int}

theorem inRange_zero : InRange 0 := by decide

theorem Numeral.inRange_of_readDigits {step total : Int} {overflowing : Numeral.Malformed}
    {cs : List Char} (htotal : InRange total)
    (h : Numeral.readDigits step overflowing total cs = .ok n) : InRange n := by
  induction cs generalizing total with
  | nil =>
    cases h
    exact htotal
  | cons c cs ih =>
    rw [Numeral.readDigits] at h
    split at h
    · dsimp only at h
      split at h
      next hnext => exact ih hnext h
      next => cases h
    · cases h

theorem Numeral.inRange_of_read {cs : List Char} (h : Numeral.read cs = .ok n) : InRange n := by
  unfold Numeral.read at h
  split at h
  · cases h
  · cases h
  · cases h
  · exact Numeral.inRange_of_readDigits inRange_zero h
  · exact Numeral.inRange_of_readDigits inRange_zero h
  · exact Numeral.inRange_of_readDigits inRange_zero h

theorem Lexer.Formed.inRange {t : Token} (h : Formed (.ok t)) (hvalue : t.value = .number n) :
    InRange n := by
  generalize hl : Except.ok t = l at h
  cases h with
  | numeral digits span =>
    rw [Lexer.numeral] at hl
    split at hl
    next hread =>
      cases hl
      cases hvalue
      exact Numeral.inRange_of_read hread
    next => cases hl
  | symbol c span =>
    rw [Lexer.symbol] at hl
    split at hl <;> cases hl
    cases hvalue
  | name | eof =>
    cases hl
    cases hvalue

def Representable (w : Word) : Prop := ∀ t n, (t, Value.number n) ∈ w → InRange n

theorem Representable.of_cons {tv : Terminal × Value} {w : Word} (h : Representable (tv :: w)) :
    Representable w := fun t n hmem => h t n (List.mem_cons_of_mem _ hmem)

theorem Representable.of_append {w w' : Word} (h : Representable (w ++ w')) :
    Representable w ∧ Representable w' :=
  ⟨fun t n hmem => h t n (List.mem_append_left _ hmem),
    fun t n hmem => h t n (List.mem_append_right _ hmem)⟩

theorem Spells.representable {source : String} {w : Word} (h : Spells source w) :
    Representable w := by
  intro t n hmem
  have hitem : .ok (t, .number n) ∈ items source := by
    rw [h]
    exact List.mem_append_left _ (List.mem_map_of_mem hmem)
  obtain ⟨l, hl, hitem⟩ := List.mem_map.mp hitem
  cases l with
  | error e => cases hitem
  | ok token =>
    have hvalue : token.value = .number n := congrArg Prod.snd (Except.ok.inj hitem)
    exact (Lexer.scan_formed _ _ _ hl).inRange hvalue

end Numerals

section Results

variable {σ α β : Type}

/-- A result conforms to the exact one: it is the exact one, which is good, and all nodes are in
order, or it is the error of the first node that goes wrong. -/
inductive Conforms (good : α → Prop) (nodes : List Node) (a : α) :
    EStateM.Result Error σ α → Prop
  | exact {u} : (∀ node ∈ nodes, node.InOrder) → good a → Conforms good nodes a (.ok a u)
  | wrong {before node after e u} : nodes = before ++ node :: after →
      (∀ other ∈ before, other.InOrder) → node.Offends e → Conforms good nodes a (.error e u)

theorem Conforms.bind {good : α → Prop} {good' : β → Prop} {nodes nodes' : List Node} {a : α} {b : β}
    {x : Act σ α} {f : α → Act σ β} {u : σ} (hx : Conforms good nodes a (x u))
    (hf : good a → ∀ u, Conforms good' nodes' b (f a u)) :
    Conforms good' (nodes ++ nodes') b ((x >>= f) u) := by
  cases h : x u with
  | ok a' u' =>
    rw [h] at hx
    rw [Engine.bind_of_ok h]
    cases hx with
    | exact hnodes hgood =>
      have hnext := hf hgood u'
      generalize f a u' = r at hnext
      cases hnext with
      | exact hnodes' hgood' =>
        exact .exact (List.forall_mem_append.mpr ⟨hnodes, hnodes'⟩) hgood'
      | @wrong before node after e u'' hsplit hbefore hnode =>
        have hsplit' : nodes ++ nodes' = (nodes ++ before) ++ node :: after := by
          rw [hsplit, List.append_assoc]
        exact .wrong hsplit' (List.forall_mem_append.mpr ⟨hnodes, hbefore⟩) hnode
  | error e u' =>
    rw [h] at hx
    rw [Engine.bind_of_error h]
    cases hx with
    | @wrong before node after e u'' hsplit hbefore hnode =>
      have hsplit' : nodes ++ nodes' = before ++ node :: (after ++ nodes') := by
        rw [hsplit, List.append_assoc, List.cons_append]
      exact .wrong hsplit' hbefore hnode

theorem Conforms.map {good : α → Prop} {good' : β → Prop} {nodes : List Node} {a : α} {x : Act σ α}
    {u : σ} (hx : Conforms good nodes a (x u)) (f : α → β) (hf : good a → good' (f a)) :
    Conforms good' nodes (f a) ((x >>= fun a => pure (f a)) u) := by
  have hpure : good a → ∀ u, Conforms good' [] (f a) ((pure (f a) : Act σ β) u) :=
    fun ha u => .exact (List.forall_mem_nil _) (hf ha)
  have hbind := hx.bind (f := fun a => pure (f a)) hpure
  rwa [List.append_nil] at hbind

end Results

inductive Node.Computes (node : Node) (n : Int) : Except Error Int → Prop
  | ok : node.InOrder → InRange n → Computes node n (.ok n)
  | error {e} : node.Offends e → Computes node n (.error e)

theorem Node.Computes.conforms {σ : Type} {node : Node} {n : Int} {x : Except Error Int}
    (h : node.Computes n x) (u : σ) :
    Conforms InRange [node] n ((Evaluator.actions.liftExcept x : Act σ Int) u) := by
  cases h with
  | ok hnode hn => exact .exact (List.forall_mem_singleton.mpr hnode) hn
  | error hnode =>
    have hnodes : [node] = [] ++ node :: [] := rfl
    exact .wrong hnodes (List.forall_mem_nil _) hnode

namespace Evaluator

variable {node : Node} {l r n : Int} {ns : List Int}

theorem checked_computes (hreaches : node.Reaches n)
    (honly : ∀ e, node.Offends e → ¬ InRange n) : node.Computes n (checked n) := by
  rw [checked]
  split
  next hn => exact .ok (fun e he => honly e he hn) hn
  next hn => exact .error (.overflow hreaches hn)

theorem add_computes (l r : Int) : (Node.add l r).Computes (l + r) (add l r) := by
  refine checked_computes rfl fun e he => ?_
  cases he with
  | overflow hreaches hn => exact hreaches ▸ hn

theorem sub_computes (l r : Int) : (Node.sub l r).Computes (l - r) (sub l r) := by
  refine checked_computes rfl fun e he => ?_
  cases he with
  | overflow hreaches hn => exact hreaches ▸ hn

theorem mul_computes (l r : Int) : (Node.mul l r).Computes (l * r) (mul l r) := by
  refine checked_computes rfl fun e he => ?_
  cases he with
  | overflow hreaches hn => exact hreaches ▸ hn

theorem neg_computes (n : Int) : (Node.neg n).Computes (-n) (neg n) := by
  refine checked_computes rfl fun e he => ?_
  cases he with
  | overflow hreaches hn => exact hreaches ▸ hn

theorem div_computes (l r : Int) : (Node.div l r).Computes (l.tdiv r) (div l r) := by
  rw [div]
  split
  next hr =>
    subst hr
    exact .error (.division l)
  next hr =>
    refine checked_computes ⟨hr, rfl⟩ fun e he => ?_
    cases he with
    | division => exact absurd rfl hr
    | overflow hreaches hn => exact hreaches.2 ▸ hn

theorem abs_computes (ns : List Int) :
    (Node.call "abs" ns).Computes (builtin "abs" ns) (abs (ns.map .ok)) := by
  match ns with
  | [n] =>
    have habs : abs ([n].map .ok) = checked |n| := by
      rw [Int.abs_eq_natAbs]
      rfl
    rw [habs]
    refine checked_computes ⟨n, rfl, rfl⟩ fun e he => ?_
    cases he with
    | overflow hreaches hn =>
      obtain ⟨m, hm, rfl⟩ := hreaches
      cases hm
      exact hn
    | unknown _ hname => exact absurd (by decide) hname
    | arity _ hlength => exact absurd rfl hlength
  | [] => exact .error (.arity rfl nofun)
  | m :: n :: ns =>
    have habs : abs ((m :: n :: ns).map .ok) = .error (.arity "abs" "1" (m :: n :: ns).length) := by
      rw [← List.length_map (Except.ok : Int → Except Error Int)]
      rfl
    rw [habs]
    exact .error (.arity rfl (by simp))

theorem foldl_inRange {choose : Int → Int → Int}
    (hchoose : ∀ m n, choose m n = m ∨ choose m n = n) (hns : ∀ m ∈ n :: ns, InRange m) :
    InRange (ns.foldl choose n) := by
  induction ns generalizing n with
  | nil => exact hns n List.mem_cons_self
  | cons m ns ih =>
    obtain ⟨hn, hm, hns⟩ : InRange n ∧ InRange m ∧ ∀ k ∈ ns, InRange k := by simpa using hns
    refine ih (List.forall_mem_cons.mpr ⟨?_, hns⟩)
    rcases hchoose n m with h | h
    · rwa [h]
    · rwa [h]

theorem extremum_ok {name : String} {choose : Int → Int → Int} (n : Int) (ns : List Int) :
    extremum name choose ((n :: ns).map .ok) = .ok (ns.foldl choose n) := by
  rw [extremum, mapM_ok]
  rfl

theorem extremum_computes {name : String} {choose : Int → Int → Int}
    (hchoose : ∀ m n, choose m n = m ∨ choose m n = n)
    (hname : name ∈ builtins) (habs : name ≠ "abs")
    (hreaches : ∀ m, (Node.call name (n :: ns)).Reaches m → m = ns.foldl choose n)
    (hns : ∀ m ∈ n :: ns, InRange m) :
    (Node.call name (n :: ns)).Computes (ns.foldl choose n)
      (extremum name choose ((n :: ns).map .ok)) := by
  have hresult := foldl_inRange hchoose hns
  rw [extremum_ok]
  refine .ok (fun e he => ?_) hresult
  cases he with
  | overflow hm hout => exact hout (hreaches _ hm ▸ hresult)
  | unknown _ hunknown => exact hunknown hname
  | arity hname => exact habs hname

theorem sumFrom_cons (total n : Int) (rest : List (Except Error Int)) :
    sumFrom total (.ok n :: rest) = (checked (total + n) >>= fun total => sumFrom total rest) := rfl

theorem sumFrom_run (ns : List Int) {total : Int} (htotal : InRange total) :
    (∀ k, InRange (total + (ns.take k).sum)) ∧ sumFrom total (ns.map .ok) = .ok (total + ns.sum) ∨
      (∃ k, ¬ InRange (total + (ns.take k).sum)) ∧
        sumFrom total (ns.map .ok) = .error .overflow := by
  induction ns generalizing total with
  | nil =>
    simp only [List.take_nil, List.sum_nil, Int.add_zero]
    exact .inl ⟨fun _ => htotal, rfl⟩
  | cons n ns ih =>
    have htake : ∀ k, total + ((n :: ns).take (k + 1)).sum = total + n + (ns.take k).sum :=
      fun k => by rw [List.take_succ_cons, List.sum_cons, Int.add_assoc]
    rw [List.map_cons, sumFrom_cons]
    by_cases hn : InRange (total + n)
    · rw [checked, if_pos hn, List.sum_cons, ← Int.add_assoc]
      rcases ih hn with ⟨hall, hrun⟩ | ⟨⟨k, hk⟩, hrun⟩
      · refine .inl ⟨fun k => ?_, hrun⟩
        cases k with
        | zero => simpa using htotal
        | succ k => exact htake k ▸ hall k
      · exact .inr ⟨⟨k + 1, htake k ▸ hk⟩, hrun⟩
    · rw [checked, if_neg hn]
      refine .inr ⟨⟨1, ?_⟩, rfl⟩
      rw [htake 0]
      simpa using hn

theorem sum_computes (hns : ns ≠ []) :
    (Node.call "sum" ns).Computes ns.sum (sum (ns.map .ok)) := by
  have hsum : sum (ns.map .ok) = sumFrom 0 (ns.map .ok) := by
    rw [sum, if_neg]
    simpa using hns
  rw [hsum]
  rcases sumFrom_run ns inRange_zero with ⟨hall, hrun⟩ | ⟨⟨k, hk⟩, hrun⟩
  · rw [hrun]
    simp only [Int.zero_add] at hall ⊢
    refine .ok (fun e he => ?_) ?_
    · cases he with
      | overflow hm hout =>
        obtain ⟨k, rfl⟩ := hm
        exact hout (hall k)
      | unknown _ hunknown => exact absurd (by decide) hunknown
      | arity habs => exact absurd habs (by decide)
    · have hwhole := hall ns.length
      rwa [List.take_length] at hwhole
  · rw [hrun]
    rw [Int.zero_add] at hk
    exact .error (.overflow ⟨k, rfl⟩ hk)

theorem call_computes (name : String) (hne : ns ≠ []) (hns : ∀ n ∈ ns, InRange n) :
    (Node.call name ns).Computes (builtin name ns) (call name (ns.map .ok)) := by
  unfold call
  split
  · exact abs_computes ns
  · obtain ⟨n, rest, rfl⟩ := List.exists_cons_of_ne_nil hne
    exact extremum_computes min_choice (by decide) (by decide)
      (fun m hm => (Option.some.inj hm).symm) hns
  · obtain ⟨n, rest, rfl⟩ := List.exists_cons_of_ne_nil hne
    exact extremum_computes max_choice (by decide) (by decide)
      (fun m hm => (Option.some.inj hm).symm) hns
  · exact sum_computes hne
  next h1 h2 h3 h4 =>
    refine .error (.unknown ns ?_)
    simp only [builtins, List.mem_cons, List.not_mem_nil, or_false, not_or]
    exact ⟨h1, h2, h3, h4⟩

end Evaluator

def Nonterminal.InRange : (n : Nonterminal) → n.Denotation → Prop
  | .expr, k | .term, k | .factor, k => ShiftReduce.InRange k
  | .arguments, (ks : List Int) => ks ≠ [] ∧ ∀ k ∈ ks, ShiftReduce.InRange k
  | .start, _ | .program, _ | .statements, _ | .statement, _ => True

theorem Tree.perform_conforms {σ : Type} {n : Nonterminal} (tree : Tree n)
    (hyield : Representable tree.yield) (u : σ) :
    Conforms n.InRange tree.nodes (tree.eval exact) (tree.perform Evaluator.actions u) := by
  induction tree generalizing u with
  | noStatement | empty => exact .exact (List.forall_mem_nil _) trivial
  | literal k => exact .exact (List.forall_mem_nil _) (hyield _ k (List.mem_singleton_self _))
  | onlyTerm t ih | onlyFactor f ih => exact ih hyield u
  | group e ih => exact ih hyield.of_cons.of_append.1 u
  | sum e t ihe iht =>
    obtain ⟨he, ht⟩ := hyield.of_append
    refine (ihe he u).bind fun _ u => (iht ht.of_cons u).bind fun _ u => ?_
    exact (Evaluator.add_computes _ _).conforms u
  | difference e t ihe iht =>
    obtain ⟨he, ht⟩ := hyield.of_append
    refine (ihe he u).bind fun _ u => (iht ht.of_cons u).bind fun _ u => ?_
    exact (Evaluator.sub_computes _ _).conforms u
  | product t f iht ihf =>
    obtain ⟨ht, hf⟩ := hyield.of_append
    refine (iht ht u).bind fun _ u => (ihf hf.of_cons u).bind fun _ u => ?_
    exact (Evaluator.mul_computes _ _).conforms u
  | quotient t f iht ihf =>
    obtain ⟨ht, hf⟩ := hyield.of_append
    refine (iht ht u).bind fun _ u => (ihf hf.of_cons u).bind fun _ u => ?_
    exact (Evaluator.div_computes _ _).conforms u
  | negation f ih =>
    refine (ih hyield.of_cons u).bind fun _ u => ?_
    exact (Evaluator.neg_computes _).conforms u
  | call name es ih =>
    refine (ih hyield.of_cons.of_cons.of_append.1 u).bind fun hes u => ?_
    exact (Evaluator.call_computes name hes.1 hes.2).conforms u
  | program ss ih => exact (ih hyield u).map (List.filterMap id) fun _ => trivial
  | nextStatement ss s ihss ihs =>
    obtain ⟨hss, hs⟩ := hyield.of_append
    refine (ihss hss u).bind fun _ u => ?_
    exact (ihs hs u).map (fun result => List.append (ss.eval exact) [result]) fun _ => trivial
  | evaluated e ih =>
    exact (ih hyield.of_append.1 u).map (fun n : Int => some (some n)) fun _ => trivial
  | firstArgument e ih =>
    refine (ih hyield u).map (fun n => [n]) fun he => ⟨List.cons_ne_nil _ _, ?_⟩
    exact List.forall_mem_singleton.mpr he
  | nextArgument es e ihes ihe =>
    obtain ⟨hes, he⟩ := hyield.of_append
    refine (ihes hes u).bind fun hes u => ?_
    refine (ihe he.of_cons u).map (fun n => List.append (es.eval exact) [n]) fun he => ⟨?_, ?_⟩
    · exact List.append_ne_nil_of_left_ne_nil hes.1 _
    · exact List.forall_mem_append.mpr ⟨hes.2, List.forall_mem_singleton.mpr he⟩

section Performed

variable {σ : Type} {u : σ} {x : EStateM.Result (Halt Error) (Session σ) Outcome}

theorem Performed.eq_ok {results : List (Option Int)} (h : Performed (.ok results u) x) :
    ∃ t, x = .ok ⟨results, []⟩ t := by
  cases h with
  | ok => exact ⟨_, rfl⟩

theorem Performed.eq_error {e : Error} (h : Performed (.error e u) x) :
    ∃ t, x = .error (.raised e) t := by
  cases h with
  | error => exact ⟨_, rfl⟩

end Performed

/-- With the stock actions and options a program comes to its exact results if and only if none of
its nodes goes wrong, and otherwise to the error of the first that does. -/
theorem calculate_exact {σ : Type} (user : σ) (history : List String) {source : String}
    {tree : Tree .program} (hsource : Spells source tree.yield) :
    ((∃ ds t, calculate user history source = .ok ⟨tree.eval exact, ds⟩ t) ↔
      ∀ node ∈ tree.nodes, node.InOrder) ∧
    ((∃ node ∈ tree.nodes, ¬ node.InOrder) → ∃ before node after e t,
      tree.nodes = before ++ node :: after ∧ (∀ other ∈ before, other.InOrder) ∧ node.Offends e ∧
        calculate user history source = .error (.raised e) t) := by
  have hcapacity : (served Evaluator.actions defaultConfig user history).stack.capacity = none :=
    served_capacity Evaluator.actions_answers defaultConfig_recovering rfl user history
  have hperformed : Performed _ (calculate user history source) :=
    parse_performs (fun _ _ => rfl) rfl hcapacity hsource
  have hconforms := tree.perform_conforms hsource.representable
    (served Evaluator.actions defaultConfig user history).client.user
  generalize tree.perform Evaluator.actions _ = r at hperformed hconforms
  cases hconforms with
  | exact hnodes _ =>
    obtain ⟨t, hok⟩ := hperformed.eq_ok
    refine ⟨⟨fun _ => hnodes, fun _ => ⟨[], t, hok⟩⟩, ?_⟩
    rintro ⟨node, hmem, hnode⟩
    exact absurd (hnodes node hmem) hnode
  | @wrong before node after e u hnodes hbefore hnode =>
    obtain ⟨t, herror⟩ := hperformed.eq_error
    refine ⟨⟨?_, fun hall => ?_⟩,
      fun _ => ⟨before, node, after, e, t, hnodes, hbefore, hnode, herror⟩⟩
    · rintro ⟨ds, t', hok⟩
      cases herror.symm.trans hok
    · have hmem : node ∈ tree.nodes := hnodes ▸ List.mem_append_right before List.mem_cons_self
      exact absurd hnode (hall node hmem e)

section Edges

def least : Tree .expr :=
  .difference (.onlyTerm (.onlyFactor (.negation (.literal 9223372036854775807)))) (.number 1)

def fitting : Tree .program :=
  .program (.nextStatement (.nextStatement .noStatement (.evaluated least))
    (.evaluated (.onlyTerm (.quotient (.onlyFactor (.negation (.literal 7))) (.literal 2)))))

def overflowing : Tree .program :=
  .program (.nextStatement (.nextStatement .noStatement
    (.evaluated (.onlyTerm (.onlyFactor (.call "sum" (.nextArgument
      (.firstArgument (.onlyTerm (.onlyFactor (.call "abs" (.firstArgument least)))))
      (.onlyTerm (.onlyFactor (.call "f" (.firstArgument (.onlyTerm (.number 2))))))))))))
    (.evaluated (.onlyTerm (.quotient (.number 1) (.literal 0)))))

theorem calculate_exact_edges :
    Spells "-9223372036854775807 - 1; -7 / 2;" fitting.yield ∧
      (∀ node ∈ fitting.nodes, node.InOrder) ∧
      fitting.eval exact = [some (-9223372036854775808), some (-3)] ∧
    Spells "sum(abs(-9223372036854775807 - 1), f(2)); 1 / 0;" overflowing.yield ∧
      ∃ before node after t, overflowing.nodes = before ++ node :: after ∧
        (∀ other ∈ before, other.InOrder) ∧ node.Offends .overflow ∧
        calculate () [] "sum(abs(-9223372036854775807 - 1), f(2)); 1 / 0;" =
          .error (.raised .overflow) t := by
  have hfitting : Spells "-9223372036854775807 - 1; -7 / 2;" fitting.yield := by
    unfold Spells
    decide +kernel
  have hoverflowing :
      Spells "sum(abs(-9223372036854775807 - 1), f(2)); 1 / 0;" overflowing.yield := by
    unfold Spells
    decide +kernel
  have hanswer : answer? (calculate () [] "-9223372036854775807 - 1; -7 / 2;") =
      some ⟨fitting.eval exact, []⟩ := by decide +kernel
  have hsummary : summary (calculate () [] "sum(abs(-9223372036854775807 - 1), f(2)); 1 / 0;") =
      some (.error .overflow) := by decide +kernel
  have hwrong : ∃ node ∈ overflowing.nodes, ¬ node.InOrder := by
    refine ⟨.call "abs" [-9223372036854775808], by decide +kernel, fun h => ?_⟩
    exact h .overflow (.overflow ⟨_, rfl, rfl⟩ (by decide +kernel))
  refine ⟨hfitting, ?_, rfl, hoverflowing, ?_⟩
  · obtain ⟨t, hok⟩ := ok_of_answer? hanswer
    exact (calculate_exact () [] hfitting).1.mp ⟨[], t, hok⟩
  · obtain ⟨before, node, after, e, t, hnodes, hbefore, hnode, herror⟩ :=
      (calculate_exact () [] hoverflowing).2 hwrong
    rw [herror] at hsummary
    obtain rfl : e = .overflow := by
      cases hnode with
      | overflow => rfl
      | division | unknown | arity => cases hsummary
    exact ⟨before, node, after, t, hnodes, hbefore, hnode, herror⟩

end Edges

end ShiftReduce.Calculator
