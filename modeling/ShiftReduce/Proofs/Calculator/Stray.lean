import ShiftReduce.Proofs.Calculator.After
import ShiftReduce.Proofs.Calculator.Earlier
import ShiftReduce.Proofs.Calculator.Meaning

/-!
Stray tokens: those that no statement begins with, where one is to begin. Recovery begins before the
statement ahead of them is counted among the results, so it is lost; and at the start of a program
there is nothing that recovery could go back to. Without stray tokens, what has been read before
makes no difference.
-/

namespace ShiftReduce.Calculator

def Strays (input : List Item) : Prop :=
  ∃ t v rest, input = .ok (t, v) :: rest ∧
    t ∈ [Terminal.plus, .asterisk, .slash, .rightParen, .comma]

variable {m : Arithmetic} {t : Terminal} {v : Value} {us : List (Option (Option Int))}
  {cells : List Cell} {input rest : List Item} {r : Except Error (List (Option Int))}
  {results results' : List (Option Int)} {w : Word}

def Readable (input : List Item) : Prop :=
  ∀ tv, .ok tv ∈ input → Shaped tv.1 tv.2 ∧ tv.1 ≠ .error

theorem items_readable (source : String) : Readable (items source) := by
  obtain ⟨body, hbody, hitems, -⟩ := items_line source ""
  rw [hitems]
  intro tv hmem
  rcases List.mem_append.mp hmem with hmem | hmem
  · obtain ⟨hshaped, -, herror⟩ := hbody _ hmem tv rfl
    exact ⟨hshaped, herror⟩
  · cases List.mem_singleton.mp hmem
    exact ⟨.mark nofun nofun, nofun⟩

theorem Readable.tail {i : Item} (h : Readable (i :: rest)) : Readable rest :=
  fun tv hmem => h tv (List.mem_cons_of_mem _ hmem)

theorem mem_follow_or_strays (herror : t ≠ .error) :
    t ∈ Nonterminal.statement.follow ∨ Strays (.ok (t, v) :: rest) := by
  by_cases ht : t ∈ Nonterminal.statement.follow
  · exact .inl ht
  · refine .inr ⟨t, v, rest, rfl, ?_⟩
    revert ht herror
    cases t <;> decide

theorem Boundary.evaluates_base (h : Boundary m us cells)
    (hinput : Readable input) (hstray : ¬ Strays input)
    (hr : Evaluates m cells input r) :
    ∃ r', Evaluates m (base []) input r' ∧ r = (us.filterMap id ++ ·) <$> r' := by
  apply Evaluates.of_base
  cases input with
  | nil =>
    cases hr
    exact .ended
  | cons i rest =>
    cases i with
    | error e =>
      cases hr
      exact .malformed
    | ok tv =>
      have ht := (mem_follow_or_strays (hinput tv List.mem_cons_self).2).resolve_right hstray
      exact (h.evaluates_iff ht).mp hr

theorem Boundary.settles_stray (h : Boundary m us cells)
    (ht : t ∈ [Terminal.plus, .asterisk, .slash, .rightParen, .comma]) (v : Value) :
    us = [] ∧ Settles m t v cells .refused ∨
      us ≠ [] ∧ Settles m t v cells (.moved (skipping (base us.dropLast))) := by
  have hrefused : Decides m t v cells .refused := by
    apply h.decides_refused <;> revert ht <;> cases t <;> decide
  have hsemicolon : t ≠ .semicolon := by rintro rfl; revert ht; decide
  have heof : t ≠ .eof := by rintro rfl; revert ht; decide
  have hsettles := Settles.resumed hrefused
  cases h with
  | start => exact .inl ⟨rfl, hsettles⟩
  | empty us | closed us | skipped us =>
    rw [@resume_of_handler t v us _ rfl hsemicolon heof] at hsettles
    rw [List.dropLast_concat]
    exact .inr ⟨by simp, hsettles⟩

theorem prefix_of_map {r' : Except Error (List (Option Int))}
    (h : .ok results = (results' ++ ·) <$> r') : results' <+: results := by
  cases r' with
  | ok tail =>
    cases h
    exact List.prefix_append _ _
  | error e => cases h

theorem skipping_results
    (hinput : Readable input)
    (hcells : cells = skipping (base us) ∨
      cells = ⟨.skipped, .value .nothing⟩ :: skipping (base us))
    (hr : Evaluates m cells input (.ok results)) : us.filterMap id ++ [none] <+: results := by
  induction input generalizing cells with
  | nil => cases hr
  | cons i rest ih =>
    have hrest : Readable rest := hinput.tail
    match i, hr with
    | .ok (t, v), hr =>
      obtain ⟨hshaped, herror⟩ := hinput (t, v) List.mem_cons_self
      rcases hcells with rfl | rfl
      · by_cases hsemicolon : t = .semicolon
        · subst hsemicolon
          cases hshaped
          exact ih hrest (.inr rfl) (evaluates_skipping_semicolon hr)
        · by_cases heof : t = .eof
          · subst heof
            cases evaluates_skipping_eof hr
          · exact ih hrest (.inl rfl) (evaluates_skipping hsemicolon heof hr)
      · have hskipped : Boundary m (us ++ [some none])
            (⟨.skipped, .value .nothing⟩ :: skipping (base us)) := .skipped us
        by_cases hstray : Strays (.ok (t, v) :: rest)
        · obtain ⟨_, _, _, hstray, ht⟩ := hstray
          cases hstray
          rcases hskipped.settles_stray ht v with ⟨hnil, -⟩ | ⟨-, hsettles⟩
          · cases us <;> cases hnil
          · rw [List.dropLast_concat] at hsettles
            exact ih hrest (.inl rfl) (hr.of_moved hsettles)
        · obtain ⟨r', -, hresults⟩ := hskipped.evaluates_base hinput hstray hr
          have hprefix := prefix_of_map hresults
          rwa [List.filterMap_append] at hprefix

theorem Boundary.keeps (h : Boundary m us cells)
    (hinput : Readable input)
    (hr : Evaluates m cells input (.ok results)) :
    (¬ Strays input → us.filterMap id <+: results) ∧
      (Strays input → us.dropLast.filterMap id ++ [none] <+: results) := by
  refine ⟨fun hstray => ?_, ?_⟩
  · obtain ⟨r', -, hresults⟩ := h.evaluates_base hinput hstray hr
    exact prefix_of_map hresults
  · rintro ⟨t, v, rest, rfl, ht⟩
    rcases h.settles_stray ht v with ⟨-, hsettles⟩ | ⟨-, hsettles⟩
    · cases hr.of_refused hsettles
    · exact skipping_results hinput.tail (.inl rfl) (hr.of_moved hsettles)

section First

variable {σ : Type}

inductive Agree : EStateM.Result (Halt Error) (Session σ) Outcome →
    EStateM.Result (Halt Error) (Session σ) Outcome → Prop
  | ok {results ds ds' t t'} : Agree (.ok ⟨results, ds⟩ t) (.ok ⟨results, ds'⟩ t')
  | raised {e e' t t'} : e.unlocated = e'.unlocated →
      Agree (.error (.raised e) t) (.error (.raised e') t')

theorem agree_of_summary {x y : EStateM.Result (Halt Error) (Session σ) Outcome}
    (hx : summary x = some r) (hy : summary y = some r) : Agree x y := by
  cases r with
  | ok results =>
    obtain ⟨ds, t, rfl⟩ := ok_of_summary hx
    obtain ⟨ds', t', rfl⟩ := ok_of_summary hy
    exact .ok
  | error e =>
    obtain ⟨e', t, rfl, rfl⟩ := raised_of_summary hx
    obtain ⟨e'', t', rfl, h⟩ := raised_of_summary hy
    exact .raised h.symm

theorem summary_of_ok {x : EStateM.Result (Halt Error) (Session σ) Outcome} {ds t}
    (h : x = .ok ⟨results, ds⟩ t) : summary x = some (.ok results) := by
  rw [h]
  rfl

/-- An empty statement in front of a program makes no difference, unless the program begins with a
stray token: without a statement ahead of it that is rejected, and with one it is skipped. -/
theorem calculate_after_empty (user : σ) (history history' : List String) (source : String) :
    (¬ Strays (items source) →
      Agree (calculate user history source) (calculate user history' ("; " ++ source))) ∧
    (Strays (items source) →
      (∃ ds t, calculate user history source = .error (.raised (.rejected ds)) t) ∧
      ∀ results ds t, calculate user history' ("; " ++ source) = .ok ⟨results, ds⟩ t →
        [none] <+: results) := by
  obtain ⟨r, hsummary, hr⟩ := calculate_evaluates user history source
  obtain ⟨r', hsummary', hr'⟩ := calculate_evaluates user history' ("; " ++ source)
  rw [items_semicolon] at hr'
  have hempty : Boundary Evaluator.arithmetic ([] ++ [none])
      (⟨.emptyStatement, .value .nothing⟩ :: base []) := .empty []
  have hafter := hr'.of_moved Boundary.start.settles_semicolon
  have hinput := items_readable source
  refine ⟨fun hstray => ?_, fun hstray => ⟨?_, fun results ds t hcalculate => ?_⟩⟩
  · obtain ⟨q, hq, rfl⟩ := Boundary.start.evaluates_base hinput hstray hr
    obtain ⟨q', hq', rfl⟩ := hempty.evaluates_base hinput hstray hafter
    obtain rfl := hq.unique hq'
    exact agree_of_summary hsummary hsummary'
  · obtain ⟨t, v, rest, hitems, ht⟩ := hstray
    rw [hitems] at hr
    rcases Boundary.start.settles_stray ht v with ⟨-, hsettles⟩ | ⟨hne, -⟩
    · rw [hr.of_refused hsettles] at hsummary
      exact rejected_of_summary hsummary
    · exact absurd rfl hne
  · rw [summary_of_ok hcalculate] at hsummary'
    cases hsummary'
    exact (hempty.keeps hinput hafter).2 hstray

theorem calculate_after_empty_minus :
    ¬ Strays (items "- ; 2;") ∧
      Agree (calculate () [] "- ; 2;") (calculate () ["+", "1 + ;"] ("; " ++ "- ; 2;")) := by
  have hhead : (items "- ; 2;").head? = some (.ok (.minus, .nothing)) := by decide +kernel
  have hstray : ¬ Strays (items "- ; 2;") := by
    rintro ⟨t, v, rest, hitems, ht⟩
    rw [hitems] at hhead
    cases hhead
    revert ht
    decide
  exact ⟨hstray, (calculate_after_empty () [] ["+", "1 + ;"] "- ; 2;").1 hstray⟩

theorem calculate_after_empty_differs :
    ¬ ∀ source : String, Agree (calculate () [] source) (calculate () [] ("; " ++ source)) := by
  intro h
  have hrejected : summary (calculate () [] "+ 1; 2;") = some (.error (.rejected [])) := by
    decide +kernel
  have hskipped : summary (calculate () [] ("; " ++ "+ 1; 2;")) = some (.ok [none, some 2]) := by
    decide +kernel
  obtain ⟨e, t, hcalculate, -⟩ := raised_of_summary hrejected
  obtain ⟨ds, t', hcalculate'⟩ := ok_of_summary hskipped
  have hagree := h "+ 1; 2;"
  rw [hcalculate, hcalculate'] at hagree
  cases hagree

end First

section Prefix

theorem Evaluates.exists_word {body : List Item} (hbody : ∀ i ∈ body, Inner i)
    (h : Evaluates m cells (body ++ rest) (.ok results)) :
    ∃ w : Word, body = w.map .ok ∧ ∀ tv ∈ w, Lexed tv := by
  induction body generalizing cells with
  | nil => exact ⟨[], rfl, nofun⟩
  | cons i body ih =>
    obtain ⟨hi, htail⟩ := List.forall_mem_cons.mp hbody
    cases i with
    | error e => cases h
    | ok tv =>
      obtain ⟨t, v⟩ := tv
      have hlexed := hi (t, v) rfl
      cases h with
      | accepted hsettles =>
        exact absurd hsettles.decides_of_accepted.eof_of_accepted hlexed.2.1
      | moved _ hevaluates =>
        obtain ⟨w, rfl, hw⟩ := ih htail hevaluates
        exact ⟨(t, v) :: w, rfl, List.forall_mem_cons.mpr ⟨hlexed, hw⟩⟩

def Loses (w : Word) (results : List (Option Int)) : Prop :=
  Closes w ∧ ∃ n, results.getLast? = some (some n)

theorem Boundary.keeps_last {x : Option Int} (h : Boundary m (us ++ [some x]) cells)
    (hend : Evaluates m cells [eof] (.ok results))
    (hinput : Readable input)
    (hr : Evaluates m cells input (.ok results')) (hw : Closes w) :
    (Strays input ∧ Loses w results → results.dropLast ++ [none] <+: results') ∧
      (¬ (Strays input ∧ Loses w results) → results <+: results') := by
  obtain ⟨hkept, hlost⟩ := h.keeps hinput hr
  have hresults : results = us.filterMap id ++ [x] := by
    rw [Except.ok.inj (h.evaluates_eof hend), List.filterMap_append]
    rfl
  rw [List.filterMap_append] at hkept
  rw [List.dropLast_concat] at hlost
  rw [hresults, List.dropLast_concat]
  refine ⟨fun hstray => hlost hstray.1, fun hnot => ?_⟩
  by_cases hstray : Strays input
  · cases x with
    | none => exact hlost hstray
    | some n => exact absurd ⟨hstray, hw, n, by simp⟩ hnot
  · exact hkept hstray

theorem Evaluates.not_inside {cell : Cell} (h : Evaluates m (cell :: cells) [eof] (.ok results)) :
    ¬ (cell.state.inner = true ∨ cell.state = .skipping) := by
  intro hhead
  have haction : action cell.state .eof = .error :=
    hhead.elim action_inner_eof fun hskipping => by rw [hskipping]; rfl
  cases h.of_eof_error haction

theorem After.keeps (h : After m w cells) (hend : Evaluates m cells [eof] (.ok results))
    (hinput : Readable input)
    (hr : Evaluates m cells input (.ok results')) :
    (Strays input ∧ Loses w results → results.dropLast ++ [none] <+: results') ∧
      (¬ (Strays input ∧ Loses w results) → results <+: results') := by
  cases h with
  | start =>
    cases Boundary.start.evaluates_eof hend
    refine ⟨?_, fun _ => List.nil_prefix⟩
    rintro ⟨-, -, n, hn⟩
    cases hn
  | inside _ hhead => exact absurd hhead hend.not_inside
  | empty us hopen =>
    have hempty : Boundary m (us ++ [none]) (⟨.emptyStatement, .value .nothing⟩ :: base us) :=
      .empty us
    obtain ⟨hkept, hlost⟩ := hempty.keeps hinput hr
    have hresults : results = us.filterMap id := by
      rw [Except.ok.inj (hempty.evaluates_eof hend), List.filterMap_append]
      exact List.append_nil _
    rw [List.dropLast_concat, ← hresults] at hlost
    rw [List.filterMap_append, ← hresults] at hkept
    refine ⟨fun hloses => absurd hloses.2.1 hopen, fun _ => ?_⟩
    by_cases hstray : Strays input
    · exact (List.prefix_append _ _).trans (hlost hstray)
    · exact (List.prefix_append _ _).trans (hkept hstray)
  | closed us n hw => exact (Boundary.closed us n).keeps_last hend hinput hr hw
  | skipped us hw => exact (Boundary.skipped us).keeps_last hend hinput hr hw

theorem not_prefix_of_last {n : Int} (hlast : results.getLast? = some (some n))
    (hlost : results.dropLast ++ [none] <+: results') : ¬ results <+: results' := by
  intro hprefix
  obtain ⟨front, rfl⟩ := List.getLast?_eq_some_iff.mp hlast
  rw [List.dropLast_concat] at hlost
  have heq := List.prefix_of_prefix_length_le hprefix hlost (by simp)
  have hsame := heq.eq_of_length (by simp)
  cases List.append_cancel_left hsame

/-- Results are kept by whatever text follows on another line, unless the first token there is stray
and the program ends with a statement that has a result. That result is lost then, and it alone. -/
theorem calculate_keeps_iff {σ : Type} (user : σ) (history history' : List String) {p s : String}
    {ds ds' : List Diagnostic} {t t' : Session σ}
    (hp : calculate user history p = .ok ⟨results, ds⟩ t)
    (hs : calculate user history' (p ++ "\n" ++ s) = .ok ⟨results', ds'⟩ t') :
    ∃ w, Spells p w ∧ (results <+: results' ↔ ¬ (Strays (items s) ∧ Loses w results)) ∧
      (Strays (items s) ∧ Loses w results → results.dropLast ++ [none] <+: results') := by
  obtain ⟨r, hsummary, hr⟩ := calculate_evaluates user history p
  obtain ⟨r', hsummary', hr'⟩ := calculate_evaluates user history' (p ++ "\n" ++ s)
  cases hsummary.symm.trans (summary_of_ok hp)
  cases hsummary'.symm.trans (summary_of_ok hs)
  obtain ⟨body, hbody, hitems, hline⟩ := items_line p s
  rw [hitems] at hr
  obtain ⟨w, rfl, hw⟩ := hr.exists_word hbody
  rw [hline] at hr'
  -- The second run passes the state in which the first one meets its end.
  obtain ⟨cells, htakes, hend⟩ := hr.takes fun tv hmem => (hw tv hmem).2.1
  have hafter : After Evaluator.arithmetic w cells := After.start.takes .start hw htakes
  obtain ⟨hlost, hkept⟩ := hafter.keeps hend (items_readable s) (htakes.evaluates hr')
  refine ⟨w, hitems, ⟨fun hprefix hloses => ?_, hkept⟩, hlost⟩
  obtain ⟨n, hlast⟩ := hloses.2.2
  exact not_prefix_of_last hlast (hlost hloses) hprefix

theorem calculate_keeps_iff_stray :
    ∃ ds ds' t t',
      calculate () [] "1; 2;" = .ok ⟨[some 1, some 2], ds⟩ t ∧
      calculate () ["1 + ;"] ("1; 2;" ++ "\n" ++ "+ 3; 4;") =
        .ok ⟨[some 1, none, some 4], ds'⟩ t' ∧
      ∃ w, Spells "1; 2;" w ∧ Strays (items "+ 3; 4;") ∧ Loses w [some 1, some 2] := by
  have hsummary : summary (calculate () [] "1; 2;") = some (.ok [some 1, some 2]) := by
    decide +kernel
  have hsummary' : summary (calculate () ["1 + ;"] ("1; 2;" ++ "\n" ++ "+ 3; 4;")) =
      some (.ok [some 1, none, some 4]) := by decide +kernel
  obtain ⟨ds, t, hp⟩ := ok_of_summary hsummary
  obtain ⟨ds', t', hs⟩ := ok_of_summary hsummary'
  obtain ⟨w, hw, hiff, -⟩ := calculate_keeps_iff () [] ["1 + ;"] hp hs
  have hlost : ¬ ([some 1, some 2] : List (Option Int)) <+: [some 1, none, some 4] := by decide
  exact ⟨ds, ds', t, t', hp, hs, w, hw, Classical.not_not.mp (mt hiff.mpr hlost)⟩

theorem calculate_keeps_not :
    ¬ ∀ (p s : String) (r r' : List (Option Int)) (ds : List Diagnostic) (t t' : Session Unit),
      calculate () [] p = .ok ⟨r, []⟩ t → calculate () [] (p ++ "\n" ++ s) = .ok ⟨r', ds⟩ t' →
        r <+: r' := by
  intro h
  have hanswer : answer? (calculate () [] "1;") = some ⟨[some 1], []⟩ := by decide +kernel
  have hsummary : summary (calculate () [] ("1;" ++ "\n" ++ "+ 2;")) = some (.ok [none]) := by
    decide +kernel
  obtain ⟨t, hp⟩ := ok_of_answer? hanswer
  obtain ⟨ds, t', hs⟩ := ok_of_summary hsummary
  have hprefix := h "1;" "+ 2;" _ _ ds t t' hp hs
  revert hprefix
  decide

end Prefix

end ShiftReduce.Calculator
