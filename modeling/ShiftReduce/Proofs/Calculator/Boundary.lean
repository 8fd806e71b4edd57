import ShiftReduce.Proofs.Calculator.Machine
import ShiftReduce.Proofs.Calculator.Sound

/-!
Between statements. When a semicolon has been read the statement before it is complete, but the
reductions that make it one of the statements wait for the next token. A token that may follow a
statement sets them off; any other is an error, and recovery drops the statement with the cells that
stand for it.
-/

namespace ShiftReduce.Calculator

def base (us : List (Option (Option Int))) : List Cell :=
  [⟨.statements, .list (us.map statementValue)⟩, ⟨.start, .value .nothing⟩]

/-- The cells where a statement may begin, with the results of those before it. -/
inductive Boundary (m : Arithmetic) : List (Option (Option Int)) → List Cell → Prop
  | start : Boundary m [] [⟨.start, .value .nothing⟩]
  | empty (us) : Boundary m (us ++ [none]) (⟨.emptyStatement, .value .nothing⟩ :: base us)
  | closed (us n) : Boundary m (us ++ [some (m.statement n)])
      (⟨.closedStatement, .value .nothing⟩ :: ⟨.expression, .value (.number n)⟩ :: base us)
  | skipped (us) : Boundary m (us ++ [some none])
      (⟨.skipped, .value .nothing⟩ :: skipping (base us))

variable {m : Arithmetic} {t : Terminal} {v : Value} {us : List (Option (Option Int))}
  {cells cells' : List Cell} {verdict : Verdict} {rest : List Item}
  {r : Except Error (List (Option Int))}

theorem decides_statement {u : Option (Option Int)} (ht : t ∈ Nonterminal.statement.follow)
    (h : Decides m t v (base (us ++ [u])) verdict) :
    Decides m t v (⟨.statement, .value (statementValue u)⟩ :: base us) verdict := by
  have hreduces : Reduces .nextStatement (⟨.statement, .value (statementValue u)⟩ :: base us)
      (.done (.list (us.map statementValue ++ [statementValue u]))) .statements
      [⟨.start, .value .nothing⟩] :=
    @Reduces.intro .nextStatement [_, _] _ [] _ _ rfl (.nextStatement _ _) rfl
  rw [base, List.map_append] at h
  exact .reduce (reduce_of_follow (p := .nextStatement) nofun ht) hreduces rfl h

theorem Reduces.start : Reduces .noStatement [⟨.start, .value .nothing⟩] (.done (.list []))
    .statements [⟨.start, .value .nothing⟩] :=
  @Reduces.intro .noStatement [] ⟨.start, .value .nothing⟩ [] _ _ rfl .noStatement rfl

theorem Boundary.decides (h : Boundary m us cells) (ht : t ∈ Nonterminal.statement.follow)
    (hbase : Decides m t v (base us) verdict) : Decides m t v cells verdict := by
  cases h with
  | start =>
    exact .reduce (reduce_of_follow (p := .noStatement) nofun ht) .start rfl hbase
  | empty us =>
    have hreduces : Reduces .empty (⟨.emptyStatement, .value .nothing⟩ :: base us)
        (.done (.value .nothing)) .statement (base us) :=
      @Reduces.intro .empty [_] _ _ _ _ rfl (.empty _) rfl
    exact .reduce (reduce_of_follow (p := .empty) nofun ht) hreduces rfl
      (decides_statement ht hbase)
  | closed us n =>
    have hreduces : Reduces .evaluated
        (⟨.closedStatement, .value .nothing⟩ :: ⟨.expression, .value (.number n)⟩ :: base us)
        (.perform (.statement n)) .statement (base us) :=
      @Reduces.intro .evaluated [_, _] _ _ _ _ rfl (.evaluated _ _) rfl
    exact .reduce (reduce_of_follow (p := .evaluated) nofun ht) hreduces rfl
      (decides_statement ht hbase)
  | skipped us =>
    have hreduces : Reduces .skipped (⟨.skipped, .value .nothing⟩ :: skipping (base us))
        (.perform .recovered) .statement (base us) :=
      @Reduces.intro .skipped [_, _] _ _ _ _ rfl (.skipped _ _) rfl
    exact .reduce (reduce_of_follow (p := .skipped) nofun ht) hreduces rfl
      (decides_statement ht hbase)

theorem decides_base_eof : Decides m .eof v (base us) (.accepted (.program (us.filterMap id))) := by
  have hreduces : Reduces .program (base us)
      (.perform (.program ((us.map statementValue).filterMap Value.asStatement?))) .accepting
      [⟨.start, .value .nothing⟩] :=
    @Reduces.intro .program [_] _ _ _ _ rfl (.program _) rfl
  rw [filterMap_statementValue] at hreduces
  exact .reduce rfl hreduces rfl (.accept rfl)

theorem decides_base (ht : t ∈ Nonterminal.statement.follow) :
    ∃ verdict, verdict ≠ .refused ∧ Decides m t v (base us) verdict := by
  have hshift : ∀ next, action .statements t = .shift next →
      ∃ verdict, verdict ≠ .refused ∧ Decides m t v (base us) verdict := by
    intro next haction
    refine ⟨_, ?_, .shift haction⟩
    exact nofun
  cases t with
  | int | ident | minus | leftParen | semicolon => exact hshift _ rfl
  | eof =>
    refine ⟨_, ?_, decides_base_eof⟩
    exact nofun
  | _ => exact absurd ht (by decide)

theorem Boundary.settles (h : Boundary m us cells) (ht : t ∈ Nonterminal.statement.follow)
    (v : Value) : ∃ verdict, Settles m t v (base us) verdict ∧ Settles m t v cells verdict := by
  have hbase : ∃ verdict, verdict ≠ .refused ∧ Decides m t v (base us) verdict := decides_base ht
  obtain ⟨verdict, hne, hdecides⟩ := hbase
  exact ⟨verdict, .decided hne hdecides, .decided hne (h.decides ht hdecides)⟩

theorem Boundary.evaluates_iff (h : Boundary m us cells) (ht : t ∈ Nonterminal.statement.follow) :
    Evaluates m cells (.ok (t, v) :: rest) r ↔ Evaluates m (base us) (.ok (t, v) :: rest) r := by
  obtain ⟨verdict, hbase, hcells⟩ := h.settles ht v
  exact ⟨.congr hcells hbase, .congr hbase hcells⟩

theorem Boundary.evaluates_eof (h : Boundary m us cells)
    (hr : Evaluates m cells (.ok (.eof, v) :: rest) r) :
    r = .ok (us.filterMap id) :=
  hr.of_accepted (.decided nofun (h.decides (by decide) decides_base_eof))

theorem Boundary.settles_semicolon (h : Boundary m us cells) :
    Settles m .semicolon v cells (.moved (⟨.emptyStatement, .value v⟩ :: base us)) :=
  .decided nofun (h.decides (by decide) (.shift rfl))

theorem Boundary.decides_refused (h : Boundary m us cells) (ht : t ∉ Nonterminal.statement.follow)
    (herror : t ≠ .error) : Decides m t v cells .refused := by
  have hend : ∀ p, endStatement p t = .error := by
    intro p
    cases t with
    | error => exact absurd rfl herror
    | plus | asterisk | slash | rightParen | comma => rfl
    | _ => exact absurd (by decide) ht
  cases h <;> exact .refuse (hend _)

end ShiftReduce.Calculator
