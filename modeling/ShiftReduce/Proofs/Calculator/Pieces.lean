import ShiftReduce.Proofs.Calculator.Inside

namespace ShiftReduce.Calculator

def semicolon : Terminal × Value := (.semicolon, .nothing)

def pieces (w : Word) : List Word := w.splitOnP fun tv => tv.1 = .semicolon

/-- What the piece before a semicolon adds to the results of a program. -/
inductive Contributes (m : Arithmetic) : Word → List (Option Int) → Prop
  | empty : Contributes m [] []
  | evaluated {tree : Tree .expr} {n : Int} : tree.evaluate m = .ok n →
      Contributes m tree.yield [m.statement n]
  | skipped {piece} : piece ≠ [] → (∀ tree : Tree .expr, tree.yield ≠ piece) →
      Contributes m piece [none]

/-- The piece is empty, or its first token may begin an expression. -/
def Begins (piece : Word) : Prop :=
  ∀ tv ∈ piece.head?, tv.1 ∈ [Terminal.int, .ident, .minus, .leftParen]

variable {m : Arithmetic} {us : List (Option (Option Int))} {cells : List Cell}
  {rest : List Item} {r : Except Error (List (Option Int))} {v : Value}

theorem proceeds_expression (tree : Tree .expr) :
    Proceeds m (fun cells => ∃ n, tree.evaluate m = .ok n ∧
        cells = ⟨.closedStatement, .value .nothing⟩ :: ⟨.expression, .value (.number n)⟩ :: base us)
      (fun e => tree.evaluate m = .error e) (base us) (tree.yield ++ [semicolon]) := by
  refine Proceeds.traced.tree tree (show goto .statements .expr = some .expression from rfl)
    (by decide) ?_
  cases hevaluate : tree.evaluate m with
  | ok n => exact .moved (.shift rfl) (.done ⟨n, rfl, rfl⟩)
  | error e => rfl

theorem evaluates_expression (tree : Tree .expr)
    (hr : Evaluates m (base us) ((tree.yield ++ [semicolon]).map .ok ++ rest) r) :
    Raises m r ∨ ∃ n, tree.evaluate m = .ok n ∧
      Evaluates m (⟨.closedStatement, .value .nothing⟩ :: ⟨.expression, .value (.number n)⟩ ::
        base us) rest r := by
  rcases (proceeds_expression tree).evaluates hr with hraises | ⟨_, ⟨n, hevaluate, rfl⟩, hrest⟩
  · exact .inl hraises
  · exact .inr ⟨n, hevaluate, hrest⟩

/-- The grammar is unambiguous, as far as values go. -/
theorem Tree.evaluate_eq_of_yield (m : Arithmetic) {tree tree' : Tree .expr}
    (h : tree.yield = tree'.yield) : tree.evaluate m = tree'.evaluate m := by
  have hproceeds := @proceeds_expression m [] tree'
  rw [← h] at hproceeds
  rcases (proceeds_expression tree).meet hproceeds with
    ⟨_, ⟨n, hn, rfl⟩, n', hn', hcells⟩ | ⟨e, he, he'⟩
  · cases hcells
    rw [hn, hn']
  · rw [he, he']

theorem Tree.yield_ne_nil (tree : Tree .expr) : tree.yield ≠ [] := by
  obtain ⟨t, v, w, hyield, -⟩ := tree.yield_begins rfl
  rw [hyield]
  exact List.cons_ne_nil _ _

theorem Contributes.unique {piece : Word} {results results' : List (Option Int)}
    (h : Contributes m piece results) (h' : Contributes m piece results') : results = results' := by
  cases h with
  | empty =>
    generalize hpiece : [] = piece at h'
    cases h' with
    | empty => rfl
    | evaluated => exact absurd hpiece.symm (Tree.yield_ne_nil _)
    | skipped hne => exact absurd hpiece.symm hne
  | evaluated hn =>
    generalize hpiece : Tree.yield _ = piece at h'
    cases h' with
    | empty => exact absurd hpiece (Tree.yield_ne_nil _)
    | evaluated hn' =>
      rw [Tree.evaluate_eq_of_yield m hpiece, hn'] at hn
      cases hn
      rfl
    | skipped _ hno => exact absurd hpiece (hno _)
  | skipped hne hno =>
    cases h' with
    | empty => exact absurd rfl hne
    | evaluated => exact absurd rfl (hno _)
    | skipped => rfl

theorem Begins.follow {tv : Terminal × Value} {piece : Word} (h : Begins (tv :: piece)) :
    tv.1 ∈ Nonterminal.statement.follow := by
  have hmem := h tv rfl
  revert hmem
  cases tv.1 <;> decide

theorem Boundary.evaluates_piece {piece : Word} (h : Boundary m us cells)
    (hpiece : ∀ tv ∈ piece, Lexed tv ∧ tv.1 ≠ .semicolon) (hbegins : Begins piece)
    (hr : Evaluates m cells ((piece ++ [semicolon]).map .ok ++ rest) r) :
    Raises m r ∨ ∃ u cells', Contributes m piece ([u].filterMap id) ∧
      Boundary m (us ++ [u]) cells' ∧ Evaluates m cells' rest r := by
  cases piece with
  | nil => exact .inr ⟨none, _, .empty, .empty us, hr.of_moved h.settles_semicolon⟩
  | cons tv piece =>
    have hbase : Evaluates m (base us) (((tv :: piece) ++ [semicolon]).map .ok ++ rest) r :=
      (h.evaluates_iff hbegins.follow).mp hr
    by_cases htree : ∃ tree : Tree .expr, tree.yield = tv :: piece
    · obtain ⟨tree, htree⟩ := htree
      rw [← htree] at hbase ⊢
      rcases evaluates_expression tree hbase with hraises | ⟨n, hevaluate, hrest⟩
      · exact .inl hraises
      · exact .inr ⟨some (m.statement n), _, .evaluated hevaluate, .closed us n, hrest⟩
    · have hno : ∀ tree : Tree .expr, tree.yield ≠ tv :: piece :=
        fun tree hyield => htree ⟨tree, hyield⟩
      have hskipped : ∀ {r},
          Evaluates m (⟨.skipped, .value .nothing⟩ :: skipping (base us)) rest r →
          ∃ u cells', Contributes m (tv :: piece) ([u].filterMap id) ∧
            Boundary m (us ++ [u]) cells' ∧ Evaluates m cells' rest r :=
        fun hrest => ⟨some none, _, .skipped (List.cons_ne_nil _ _) hno, .skipped us, hrest⟩
      rw [List.map_append, List.append_assoc] at hbase
      rcases Inside.nil.evaluates_word hpiece (fun _ => List.cons_ne_nil _ _) hbase with
        hraises | hskip | ⟨top, htop, hinside, hrest⟩
      · exact .inl hraises
      · exact .inr (hskipped (evaluates_skipping_semicolon hskip))
      · rcases hinside.evaluates_semicolon (fun tv htv => (hpiece tv htv).2) htop hrest with
          hraises | hskip | ⟨tree, hyield⟩
        · exact .inl hraises
        · exact .inr (hskipped hskip)
        · exact absurd hyield (hno tree)

theorem Boundary.evaluates_last {piece : Word} (h : Boundary m us cells)
    (hpiece : ∀ tv ∈ piece, Lexed tv ∧ tv.1 ≠ .semicolon) (hbegins : Begins piece)
    (hr : Evaluates m cells (piece.map .ok ++ [.ok (.eof, v)]) r) :
    Raises m r ∨ r = if piece = [] then .ok (us.filterMap id) else .error (.rejected []) := by
  cases piece with
  | nil => exact .inr (h.evaluates_eof hr)
  | cons tv piece =>
    rw [if_neg (List.cons_ne_nil _ _)]
    have hbase : Evaluates m (base us) ((tv :: piece).map .ok ++ [.ok (.eof, v)]) r :=
      (h.evaluates_iff hbegins.follow).mp hr
    rcases Inside.nil.evaluates_word hpiece (fun _ => List.cons_ne_nil _ _) hbase with
      hraises | hskip | ⟨top, htop, hinside, hrest⟩
    · exact .inl hraises
    · exact .inr (evaluates_skipping_eof hskip)
    · exact .inr (hinside.evaluates_eof htop hrest)

section Cut

variable {w : Word} {ps : List Word}

inductive Cut : Word → List Word → Prop
  | last {w : Word} : (∀ tv ∈ w, tv.1 ≠ .semicolon) → Cut w [w]
  | next {piece w : Word} {ps : List Word} : (∀ tv ∈ piece, tv.1 ≠ .semicolon) → Cut w ps →
      Cut (piece ++ semicolon :: w) (piece :: ps)

theorem Cut.ne_nil (h : Cut w ps) : ps ≠ [] := by
  cases h <;> exact List.cons_ne_nil _ _

theorem eq_semicolon {tv : Terminal × Value} (hlexed : Lexed tv) (htv : tv.1 = .semicolon) :
    tv = semicolon := by
  obtain ⟨t, v⟩ := tv
  obtain rfl : t = .semicolon := htv
  cases hlexed.1
  rfl

theorem cut_pieces (hw : ∀ tv ∈ w, Lexed tv) : Cut w (pieces w) := by
  induction w with
  | nil => exact .last nofun
  | cons tv w ih =>
    obtain ⟨hlexed, htail⟩ := List.forall_mem_cons.mp hw
    have hcut := ih htail
    rw [pieces, List.splitOnP_cons_eq_if_modifyHead]
    by_cases htv : tv.1 = .semicolon
    · rw [if_pos (decide_eq_true htv), eq_semicolon hlexed htv]
      have hnext : Cut ([] ++ semicolon :: w) ([] :: pieces w) := .next nofun hcut
      exact hnext
    · rw [if_neg (by simpa using htv)]
      rw [pieces] at hcut
      generalize List.splitOnP _ w = ps at hcut
      cases hcut with
      | last hall => exact .last (List.forall_mem_cons.mpr ⟨htv, hall⟩)
      | next hpiece hcut => exact .next (List.forall_mem_cons.mpr ⟨htv, hpiece⟩) hcut

theorem Cut.evaluates (hcut : Cut w ps) (h : Boundary m us cells) (hw : ∀ tv ∈ w, Lexed tv)
    (hbegins : ∀ piece ∈ ps, Begins piece)
    (hr : Evaluates m cells (w.map .ok ++ [.ok (.eof, v)]) r) :
    Raises m r ∨ ∃ lists, List.Forall₂ (Contributes m) ps.dropLast lists ∧
      r = if ps.getLast? = some [] then .ok (us.filterMap id ++ lists.flatten)
        else .error (.rejected []) := by
  -- Each piece leads from a boundary to a boundary, with its results behind those before.
  induction hcut generalizing us cells with
  | @last w hall =>
    have hlast := h.evaluates_last (fun tv htv => ⟨hw tv htv, hall tv htv⟩)
      (hbegins w (List.mem_singleton_self w)) hr
    refine hlast.imp_right fun hr => ⟨[], .nil, ?_⟩
    simpa using hr
  | @next piece w ps hpiece hcut ih =>
    obtain ⟨hbegin, htail⟩ := List.forall_mem_cons.mp hbegins
    have hr : Evaluates m cells ((piece ++ [semicolon]).map .ok ++
        (w.map .ok ++ [.ok (.eof, v)])) r := by simpa using hr
    rcases h.evaluates_piece (fun tv htv => ⟨hw tv (by simp [htv]), hpiece tv htv⟩) hbegin hr with
      hraises | ⟨u, cells', hcontributes, hboundary, hr⟩
    · exact .inl hraises
    · refine (ih hboundary (fun tv htv => hw tv (by simp [htv])) htail hr).imp_right ?_
      rintro ⟨lists, hlists, hr⟩
      refine ⟨[u].filterMap id :: lists, ?_, ?_⟩
      · rw [List.dropLast_cons_of_ne_nil hcut.ne_nil]
        exact .cons hcontributes hlists
      · obtain ⟨q, qs, rfl⟩ := List.exists_cons_of_ne_nil hcut.ne_nil
        rw [hr, List.getLast?_cons_cons, List.filterMap_append, List.append_assoc]
        rfl

end Cut

end ShiftReduce.Calculator
