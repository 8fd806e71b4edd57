import ShiftReduce.Proofs.Calculator.Complete
import ShiftReduce.Proofs.Calculator.Completion
import Mathlib.Data.Nat.Find

namespace ShiftReduce.Calculator

def ended (w : Word) : Word := w ++ [(.eof, .nothing)]

def Sentence (w : Word) : Prop := ∃ tree : Tree .program, w = ended tree.yield

def Viable (w : Word) : Prop := ∃ rest, Sentence (w ++ rest)

theorem Viable.of_append {w u : Word} (h : Viable (w ++ u)) : Viable w := by
  obtain ⟨rest, h⟩ := h
  exact ⟨u ++ rest, by rwa [← List.append_assoc]⟩

theorem Tree.lexed {n : Nonterminal} (tree : Tree n) : ∀ tv ∈ tree.yield, Lexed tv := by
  have hmark : ∀ {t : Terminal}, t ≠ .int → t ≠ .ident → t ≠ .eof → t ≠ .error →
      Lexed (t, .nothing) := fun hint hident heof herror => ⟨.mark hint hident, heof, herror⟩
  induction tree with
  | program ss ih => exact ih
  | noStatement => exact nofun
  | onlyTerm ss ih | onlyFactor ss ih | firstArgument ss ih => exact ih
  | nextStatement ss s ih ih' => exact List.forall_mem_append.mpr ⟨ih, ih'⟩
  | evaluated e ih =>
    refine List.forall_mem_append.mpr ⟨ih, List.forall_mem_singleton.mpr ?_⟩
    exact hmark nofun nofun nofun nofun
  | empty => exact List.forall_mem_singleton.mpr (hmark nofun nofun nofun nofun)
  | literal n => exact List.forall_mem_singleton.mpr ⟨.int n, nofun, nofun⟩
  | sum e t ih ih' | difference e t ih ih' | product e t ih ih' | quotient e t ih ih'
  | nextArgument e t ih ih' =>
    refine List.forall_mem_append.mpr ⟨ih, List.forall_mem_cons.mpr ⟨?_, ih'⟩⟩
    exact hmark nofun nofun nofun nofun
  | group e ih =>
    refine List.forall_mem_cons.mpr ⟨hmark nofun nofun nofun nofun, ?_⟩
    refine List.forall_mem_append.mpr ⟨ih, List.forall_mem_singleton.mpr ?_⟩
    exact hmark nofun nofun nofun nofun
  | negation f ih => exact List.forall_mem_cons.mpr ⟨hmark nofun nofun nofun nofun, ih⟩
  | call name es ih =>
    refine List.forall_mem_cons.mpr ⟨⟨.ident name, nofun, nofun⟩, ?_⟩
    refine List.forall_mem_cons.mpr ⟨hmark nofun nofun nofun nofun, ?_⟩
    refine List.forall_mem_append.mpr ⟨ih, List.forall_mem_singleton.mpr ?_⟩
    exact hmark nofun nofun nofun nofun

theorem ended_shaped {u : Word} (hu : ∀ tv ∈ u, Lexed tv) :
    ∀ tv ∈ ended u, Shaped tv.1 tv.2 ∧ tv.1 ≠ .error := by
  refine List.forall_mem_append.mpr ⟨fun tv htv => ⟨(hu tv htv).1, (hu tv htv).2.2⟩, ?_⟩
  exact List.forall_mem_singleton.mpr ⟨.mark nofun nofun, nofun⟩

theorem lexed_take {u : Word} (hu : ∀ tv ∈ u, Lexed tv) (k : Nat) : ∀ tv ∈ u.take k, Lexed tv :=
  fun tv htv => hu tv (List.mem_of_mem_take htv)

theorem Sentence.shaped {w : Word} (h : Sentence w) : ∀ tv ∈ w, Shaped tv.1 tv.2 := by
  obtain ⟨tree, rfl⟩ := h
  exact fun tv htv => (ended_shaped tree.lexed tv htv).1

theorem Viable.sentence {u : Word} (h : Viable (ended u)) : Sentence (ended u) := by
  obtain ⟨rest, tree, htree⟩ := h
  rcases List.eq_nil_or_concat rest with rfl | ⟨init, last, rfl⟩
  · exact ⟨tree, by simpa using htree⟩
  · -- The end would be a token of the program.
    rw [List.concat_eq_append, ← List.append_assoc] at htree
    obtain ⟨hyield, -⟩ := List.append_inj' htree rfl
    have hmem : (Terminal.eof, Value.nothing) ∈ tree.yield := by simp [← hyield, ended]
    exact absurd rfl (tree.lexed _ hmem).2.1

theorem viable_nil : Viable [] := ⟨_, .program .noStatement, rfl⟩

/-- In the word, to which the end is added, `tv` comes at `k` and is the first token that no
sentence goes on with. -/
structure Earliest (u : Word) (k : Nat) (tv : Terminal × Value) (rest : Word) : Prop where
  le_length : k ≤ u.length
  split : ended u = u.take k ++ tv :: rest
  viable : ∀ j ≤ k, Viable (u.take j)
  not_viable : ¬ Viable (u.take k ++ [tv])

namespace Earliest

variable {u rest : Word} {k j : Nat} {tv : Terminal × Value}

theorem take_of_le (h : Earliest u k tv rest) (hj : j ≤ k) : (ended u).take j = u.take j :=
  List.take_append_of_le_length (Nat.le_trans hj h.le_length)

theorem take_succ (h : Earliest u k tv rest) : (ended u).take (k + 1) = u.take k ++ [tv] := by
  have hlength : (u.take k).length = k := List.length_take_of_le h.le_length
  have htake : (u.take k).take (k + 1) = u.take k := List.take_of_length_le (by omega)
  rw [h.split, List.take_append, hlength, htake, Nat.add_sub_cancel_left]
  rfl

theorem shaped (h : Earliest u k tv rest) (hu : ∀ tv ∈ u, Lexed tv) :
    Shaped tv.1 tv.2 ∧ tv.1 ≠ .error :=
  ended_shaped hu tv (by simp [h.split])

end Earliest

theorem exists_earliest {u : Word} (h : ¬ Sentence (ended u)) :
    ∃ k tv rest, Earliest u k tv rest := by
  classical
  have hlength : (ended u).length = u.length + 1 := by simp [ended]
  have hlast : ¬ Viable ((ended u).take (u.length + 1)) := by
    rw [← hlength, List.take_length]
    exact fun hviable => h hviable.sentence
  have hexists : ∃ k, ¬ Viable ((ended u).take (k + 1)) := ⟨_, hlast⟩
  have hle := Nat.find_min' hexists hlast
  have hbefore : ∀ j ≤ Nat.find hexists, (ended u).take j = u.take j := fun j hj =>
    List.take_append_of_le_length (Nat.le_trans hj hle)
  have hlt : Nat.find hexists < (ended u).length := hlength ▸ Nat.lt_succ_of_le hle
  refine ⟨Nat.find hexists, (ended u)[Nat.find hexists], (ended u).drop (Nat.find hexists + 1), hle,
    ?_, fun j hj => ?_, ?_⟩
  · rw [← hbefore _ le_rfl, List.getElem_cons_drop, List.take_append_drop]
  · rw [← hbefore j hj]
    cases j with
    | zero => exact viable_nil
    | succ j => exact not_not.mp (Nat.find_min hexists hj)
  · rw [← hbefore _ le_rfl, List.take_append_getElem]
    exact Nat.find_spec hexists

section States

variable {p : Production} {cells cells' below below' : List Cell} {work work' : Work}
  {next next' : State}

theorem Reduces.states_eq (h : Reduces p cells work next below)
    (h' : Reduces p cells' work' next' below')
    (hstates : cells'.map Cell.state = cells.map Cell.state) :
    next' = next ∧ below'.map Cell.state = below.map Cell.state := by
  obtain @⟨top, r, below, _, _, htop, -, hgoto⟩ := h
  obtain @⟨top', r', below', _, _, htop', -, hgoto'⟩ := h'
  rw [List.map_append, List.map_append] at hstates
  have hlength : (top'.map Cell.state).length = (top.map Cell.state).length := by
    rw [List.length_map, List.length_map, length_top htop, length_top htop']
  obtain ⟨-, hrest⟩ := List.append_inj hstates hlength
  have hr : r'.state = r.state := (List.cons.inj hrest).1
  rw [hr, hgoto] at hgoto'
  exact ⟨(Option.some.inj hgoto').symm, hrest⟩

theorem Accepts.of_states {a : Algebra} {w : Word} {result : Value} (h : Accepts a cells w result)
    (hw : ∀ tv ∈ w, Shaped tv.1 tv.2) (hproper : Proper cells')
    (hstates : cells'.map Cell.state = cells.map Cell.state) :
    ∃ result', Accepts a cells' w result' := by
  induction h generalizing cells' with
  | accept haction =>
    obtain ⟨cell', rest', rfl, hcell, hrest⟩ := List.map_eq_cons_iff.mp hstates
    rw [← hcell] at haction
    exact ⟨_, .accept haction⟩
  | shift haction haccepts ih =>
    obtain ⟨cell', rest', rfl, hcell, hrest⟩ := List.map_eq_cons_iff.mp hstates
    obtain ⟨hshaped, hw⟩ := List.forall_mem_cons.mp hw
    rw [← hcell] at haction
    obtain ⟨result', haccepts'⟩ := ih hw (hproper.shift haction hshaped)
      (congrArg (List.cons _) hstates)
    exact ⟨result', .shift haction haccepts'⟩
  | reduce haction hreduces haccepts ih =>
    obtain ⟨cell', rest', rfl, hcell, hrest⟩ := List.map_eq_cons_iff.mp hstates
    rw [← hcell] at haction
    obtain ⟨work', next', below', hreduces', -, hnext⟩ := hproper.reduces haction
    obtain ⟨rfl, hbelow⟩ := hreduces.states_eq hreduces' hstates
    obtain ⟨result', haccepts'⟩ := ih hw (hnext _ (a.yields work')).1
      (congrArg (List.cons _) hbelow)
    exact ⟨result', .reduce haction hreduces' haccepts'⟩

end States

structure Covering (a : Algebra) (w u : Word) (cells : List Cell) : Prop where
  proper : Proper cells
  covers : Covers cells w
  goes : ∀ {rest}, Sentence (w ++ u ++ rest) → ∃ result, Accepts a cells (u ++ rest) result

namespace Covering

variable {a : Algebra} {w u : Word} {t : Terminal} {v : Value} {cell : Cell}
  {cells below : List Cell}

theorem start (a : Algebra) : Covering a [] [] [⟨.start, .value .nothing⟩] where
  proper := .start
  covers := .start _
  goes := by
    rintro rest ⟨tree, hrest⟩
    have hrest : rest = tree.yield ++ [(.eof, .nothing)] := hrest
    subst hrest
    exact ⟨_, .of_tree tree rfl (List.mem_singleton_self _) (.accept rfl)⟩

theorem viable (h : Covering a w [] cells) : Viable w := by
  obtain ⟨u, result, hu, haccepts⟩ := h.proper.completes a
  obtain ⟨tree, htree⟩ := haccepts.tree h.covers h.proper.path rfl hu
  exact ⟨u ++ [(.eof, .nothing)], tree, by rw [htree, ended, List.append_assoc]⟩

theorem ahead (h : Covering a w [] cells) (u : Word) : Covering a w u cells where
  proper := h.proper
  covers := h.covers
  goes {rest} hsentence := by
    rw [List.append_assoc, ← List.append_nil w] at hsentence
    exact h.goes hsentence

theorem refused (h : Covering a w [(t, v)] (cell :: cells))
    (haction : action cell.state t = .error) : ¬ Viable (w ++ [(t, v)]) := by
  rintro ⟨rest, hsentence⟩
  obtain ⟨result, haccepts⟩ := h.goes hsentence
  exact not_accepts haction haccepts

theorem accepted (h : Covering a w [(t, v)] (cell :: cells)) (hshaped : Shaped t v)
    (haction : action cell.state t = .accept) : Sentence (w ++ [(t, v)]) := by
  obtain ⟨q, c⟩ := cell
  obtain ⟨rfl, rfl⟩ := eq_of_accept haction
  obtain ⟨tree, htree⟩ := h.covers.program h.proper.path
  cases hshaped with
  | mark => exact ⟨tree, by rw [htree, ended]⟩

theorem shift {next : State} (h : Covering a w [(t, v)] (cell :: cells)) (hshaped : Shaped t v)
    (ht : t ≠ .error) (haction : action cell.state t = .shift next) :
    Covering a (w ++ [(t, v)]) [] (⟨next, .value v⟩ :: cell :: cells) where
  proper := h.proper.shift haction hshaped
  covers := by
    refine h.covers.cons ?_
    rw [State.entry_of_shift haction]
    exact .token ⟨hshaped, ne_eof_of_shift haction, ht⟩
  goes {rest} hsentence := by
    rw [List.append_nil] at hsentence
    obtain ⟨result, haccepts⟩ := h.goes hsentence
    exact ⟨result, (accepts_shift_iff haction).mp haccepts⟩

theorem reduces {p : Production} {work : Work} {next : State} {c : Content}
    (h : Covering a w [(t, v)] (cell :: cells)) (haction : action cell.state t = .reduce p)
    (hreduces : Reduces p (cell :: cells) work next below) (hc : work.Yields c) :
    Covering a w [(t, v)] (⟨next, c⟩ :: below) where
  proper := (h.proper.reduces_clean haction hreduces).2 c hc
  covers := h.covers.reduces (home_of_reduce haction).1 hreduces c
  goes {rest} hsentence := by
    obtain ⟨result, haccepts⟩ := h.goes hsentence
    have hreduced := (accepts_reduce_iff haction hreduces).mp haccepts
    refine hreduced.of_states ?_ ((h.proper.reduces_clean haction hreduces).2 c hc) rfl
    rw [List.append_assoc] at hsentence
    exact (List.forall_mem_append.mp hsentence.shaped).2

end Covering

end ShiftReduce.Calculator
