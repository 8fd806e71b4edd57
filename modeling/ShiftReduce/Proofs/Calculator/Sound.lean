import ShiftReduce.Proofs.Calculator.Accept

namespace ShiftReduce.Calculator

def Lexed (tv : Terminal × Value) : Prop := Shaped tv.1 tv.2 ∧ tv.1 ≠ .eof ∧ tv.1 ≠ .error

inductive Derives : Symbol → Word → Prop
  | token {t v} : Lexed (t, v) → Derives (.terminal t) [(t, v)]
  | tree {n} (tree : Tree n) : Derives (.nonterminal n) tree.yield

theorem Derives.mark {t : Terminal} {w : Word} (h : Derives (.terminal t) w) (hint : t ≠ .int)
    (hident : t ≠ .ident) : w = [(t, .nothing)] := by
  cases h with
  | token hlexed =>
    cases hlexed.1 with
    | int => exact absurd rfl hint
    | ident => exact absurd rfl hident
    | mark => rfl

theorem Derives.int {w : Word} (h : Derives (.terminal .int) w) : ∃ n, w = [(.int, .number n)] := by
  cases h with
  | token hlexed =>
    cases hlexed.1 with
    | int n => exact ⟨n, rfl⟩
    | mark hint => exact absurd rfl hint

theorem Derives.ident {w : Word} (h : Derives (.terminal .ident) w) :
    ∃ name, w = [(.ident, .name name)] := by
  cases h with
  | token hlexed =>
    cases hlexed.1 with
    | ident name => exact ⟨name, rfl⟩
    | mark _ hident => exact absurd rfl hident

theorem Derives.of_nonterminal {n : Nonterminal} {w : Word} (h : Derives (.nonterminal n) w) :
    ∃ tree : Tree n, w = tree.yield := by
  cases h with
  | tree tree => exact ⟨tree, rfl⟩

theorem Derives.of_yield {n : Nonterminal} {w : Word} (tree : Tree n) (h : w = tree.yield) :
    Derives (.nonterminal n) w := by
  rw [h]
  exact .tree tree

theorem derives_of_rhs {p : Production} {ws : List Word} (hp : p ≠ .start)
    (h : List.Forall₂ Derives p.rhs ws) : Derives (.nonterminal p.rule.lhs) ws.flatten := by
  cases p with
  | start => exact absurd rfl hp
  | program =>
    obtain ⟨⟩ | ⟨hss, ⟨⟩⟩ := h
    obtain ⟨ss, rfl⟩ := hss.of_nonterminal
    exact .of_yield (.program ss) (by simp [Tree.yield])
  | noStatement =>
    obtain ⟨⟩ := h
    exact .tree .noStatement
  | nextStatement =>
    obtain ⟨⟩ | ⟨hss, ⟨⟩ | ⟨hs, ⟨⟩⟩⟩ := h
    obtain ⟨ss, rfl⟩ := hss.of_nonterminal
    obtain ⟨s, rfl⟩ := hs.of_nonterminal
    exact .of_yield (.nextStatement ss s) (by simp [Tree.yield])
  | evaluated =>
    obtain ⟨⟩ | ⟨he, ⟨⟩ | ⟨hend, ⟨⟩⟩⟩ := h
    obtain ⟨e, rfl⟩ := he.of_nonterminal
    obtain rfl := hend.mark nofun nofun
    exact .of_yield (.evaluated e) (by simp [Tree.yield])
  | empty =>
    obtain ⟨⟩ | ⟨hend, ⟨⟩⟩ := h
    obtain rfl := hend.mark nofun nofun
    exact .of_yield .empty (by simp [Tree.yield])
  | skipped =>
    obtain ⟨⟩ | ⟨⟨hlexed⟩, _⟩ := h
    exact absurd rfl hlexed.2.2
  | sum =>
    obtain ⟨⟩ | ⟨he, ⟨⟩ | ⟨hplus, ⟨⟩ | ⟨ht, ⟨⟩⟩⟩⟩ := h
    obtain ⟨e, rfl⟩ := he.of_nonterminal
    obtain rfl := hplus.mark nofun nofun
    obtain ⟨t, rfl⟩ := ht.of_nonterminal
    exact .of_yield (.sum e t) (by simp [Tree.yield])
  | difference =>
    obtain ⟨⟩ | ⟨he, ⟨⟩ | ⟨hminus, ⟨⟩ | ⟨ht, ⟨⟩⟩⟩⟩ := h
    obtain ⟨e, rfl⟩ := he.of_nonterminal
    obtain rfl := hminus.mark nofun nofun
    obtain ⟨t, rfl⟩ := ht.of_nonterminal
    exact .of_yield (.difference e t) (by simp [Tree.yield])
  | product =>
    obtain ⟨⟩ | ⟨ht, ⟨⟩ | ⟨htimes, ⟨⟩ | ⟨hf, ⟨⟩⟩⟩⟩ := h
    obtain ⟨t, rfl⟩ := ht.of_nonterminal
    obtain rfl := htimes.mark nofun nofun
    obtain ⟨f, rfl⟩ := hf.of_nonterminal
    exact .of_yield (.product t f) (by simp [Tree.yield])
  | quotient =>
    obtain ⟨⟩ | ⟨ht, ⟨⟩ | ⟨hover, ⟨⟩ | ⟨hf, ⟨⟩⟩⟩⟩ := h
    obtain ⟨t, rfl⟩ := ht.of_nonterminal
    obtain rfl := hover.mark nofun nofun
    obtain ⟨f, rfl⟩ := hf.of_nonterminal
    exact .of_yield (.quotient t f) (by simp [Tree.yield])
  | onlyTerm =>
    obtain ⟨⟩ | ⟨ht, ⟨⟩⟩ := h
    obtain ⟨t, rfl⟩ := ht.of_nonterminal
    exact .of_yield (.onlyTerm t) (by simp [Tree.yield])
  | onlyFactor =>
    obtain ⟨⟩ | ⟨hf, ⟨⟩⟩ := h
    obtain ⟨f, rfl⟩ := hf.of_nonterminal
    exact .of_yield (.onlyFactor f) (by simp [Tree.yield])
  | literal =>
    obtain ⟨⟩ | ⟨hint, ⟨⟩⟩ := h
    obtain ⟨n, rfl⟩ := hint.int
    exact .tree (.literal n)
  | group =>
    obtain ⟨⟩ | ⟨hopen, ⟨⟩ | ⟨he, ⟨⟩ | ⟨hclose, ⟨⟩⟩⟩⟩ := h
    obtain rfl := hopen.mark nofun nofun
    obtain ⟨e, rfl⟩ := he.of_nonterminal
    obtain rfl := hclose.mark nofun nofun
    exact .of_yield (.group e) (by simp [Tree.yield])
  | negation =>
    obtain ⟨⟩ | ⟨hminus, ⟨⟩ | ⟨hf, ⟨⟩⟩⟩ := h
    obtain rfl := hminus.mark nofun nofun
    obtain ⟨f, rfl⟩ := hf.of_nonterminal
    exact .of_yield (.negation f) (by simp [Tree.yield])
  | call =>
    obtain ⟨⟩ | ⟨hname, ⟨⟩ | ⟨hopen, ⟨⟩ | ⟨hes, ⟨⟩ | ⟨hclose, ⟨⟩⟩⟩⟩⟩ := h
    obtain ⟨name, rfl⟩ := hname.ident
    obtain rfl := hopen.mark nofun nofun
    obtain ⟨es, rfl⟩ := hes.of_nonterminal
    obtain rfl := hclose.mark nofun nofun
    exact .of_yield (.call name es) (by simp [Tree.yield])
  | firstArgument =>
    obtain ⟨⟩ | ⟨he, ⟨⟩⟩ := h
    obtain ⟨e, rfl⟩ := he.of_nonterminal
    exact .of_yield (.firstArgument e) (by simp [Tree.yield])
  | nextArgument =>
    obtain ⟨⟩ | ⟨hes, ⟨⟩ | ⟨hcomma, ⟨⟩ | ⟨he, ⟨⟩⟩⟩⟩ := h
    obtain ⟨es, rfl⟩ := hes.of_nonterminal
    obtain rfl := hcomma.mark nofun nofun
    obtain ⟨e, rfl⟩ := he.of_nonterminal
    exact .of_yield (.nextArgument es e) (by simp [Tree.yield])

/-- The word that was read to put the cells on the stack. -/
inductive Covers : List Cell → Word → Prop
  | start (c) : Covers [⟨.start, c⟩] []
  | cons {cell cells w u} : Covers cells w → Derives cell.state.entry u →
      Covers (cell :: cells) (w ++ u)

theorem Covers.split {top : List Cell} {cell : Cell} {below : List Cell} {w : Word}
    (h : Covers (top ++ cell :: below) w) :
    ∃ u us, w = u ++ us.flatten ∧ Covers (cell :: below) u ∧
      List.Forall₂ Derives (top.map fun c => c.state.entry).reverse us := by
  induction top generalizing w with
  | nil => exact ⟨w, [], by simp, h, .nil⟩
  | cons first top ih =>
    generalize hcells : first :: top ++ cell :: below = cells at h
    cases h with
    | start =>
      cases top <;> cases hcells
    | @cons _ _ _ v hcovers hderives =>
      obtain ⟨rfl, rfl⟩ := List.cons.inj hcells
      obtain ⟨u, us, rfl, hu, hus⟩ := ih hcovers
      refine ⟨u, us ++ [v], by simp, hu, ?_⟩
      rw [List.map_cons, List.reverse_cons]
      exact List.rel_append hus (.cons hderives .nil)

theorem Covers.reduces {p : Production} {cells below : List Cell} {work : Work} {next : State}
    {w : Word} (h : Covers cells w) (hp : p ≠ .start) (hreduces : Reduces p cells work next below)
    (c : Content) : Covers (⟨next, c⟩ :: below) w := by
  obtain ⟨htop, hasks, hgoto⟩ := hreduces
  obtain ⟨u, us, rfl, hu, hus⟩ := h.split
  rw [htop] at hus
  refine hu.cons ?_
  rw [goto_entry hgoto]
  exact derives_of_rhs hp hus

theorem ne_eof_of_shift {q next : State} {t : Terminal} (h : action q t = .shift next) :
    t ≠ .eof := by
  rintro rfl
  cases q <;> cases h

theorem Covers.program {c : Content} {cells : List Cell} {w : Word}
    (h : Covers (⟨.accepting, c⟩ :: cells) w)
    (hpath : Path (.accepting :: cells.map Cell.state)) :
    ∃ tree : Tree .program, tree.yield = w := by
  cases h with
  | cons hcovers hderives =>
    obtain ⟨tree, rfl⟩ := hderives.of_nonterminal
    refine ⟨tree, ?_⟩
    cases hcovers with
    | start => rfl
    | @cons below rest _ _ hcovers _ =>
      have hbelow := (goto_program hpath.advance_eq).1
      have hrest := hpath.tail
      rw [hbelow] at hrest
      rw [List.map_eq_nil_iff.mp hrest.of_start] at hcovers
      cases hcovers

theorem Accepts.tree {a : Algebra} {cells : List Cell} {input w u : Word} {result v : Value}
    (h : Accepts a cells input result) (hcovers : Covers cells w)
    (hpath : Path (cells.map Cell.state)) (hinput : input = u ++ [(.eof, v)])
    (hlexed : ∀ tv ∈ u, Lexed tv) : ∃ tree : Tree .program, tree.yield = w ++ u := by
  -- What is covered grows with every shift and stays the same under every reduction.
  induction h generalizing w u with
  | @accept cell cells t v' rest haction =>
    obtain ⟨q, c⟩ := cell
    obtain ⟨rfl, rfl⟩ := eq_of_accept haction
    cases u with
    | nil =>
      rw [List.append_nil]
      exact hcovers.program hpath
    | cons tv u =>
      obtain ⟨rfl, _⟩ := List.cons.inj hinput
      exact absurd rfl (hlexed _ List.mem_cons_self).2.1
  | @shift cell cells t v' next rest result haction haccepts ih =>
    cases u with
    | nil =>
      cases hinput
      exact absurd rfl (ne_eof_of_shift haction)
    | cons tv u =>
      obtain ⟨rfl, rfl⟩ := List.cons.inj hinput
      have hadvance := State.advance_of_shift haction
      have hderives : Derives next.entry [(t, v')] := by
        rw [State.entry_of_shift haction]
        exact .token (hlexed _ List.mem_cons_self)
      obtain ⟨tree, htree⟩ := ih (hcovers.cons hderives) (hpath.advance _ hadvance) rfl
        fun tv htv => hlexed tv (List.mem_cons_of_mem _ htv)
      exact ⟨tree, by rw [htree, List.append_assoc, List.singleton_append]⟩
  | reduce haction hreduces haccepts ih =>
    have hp := (home_of_reduce haction).1
    exact ih (hcovers.reduces hp hreduces _) (hreduces.path hpath) hinput hlexed

end ShiftReduce.Calculator
