import ShiftReduce.Proofs.Calculator.Diagnosis
import ShiftReduce.Proofs.Calculator.Stray

namespace ShiftReduce.Calculator

variable {m : Arithmetic} {es : List Value} {us : List (Option (Option Int))} {w : Word} {l : Token}
  {cells cells' : List Cell} {ls rest : List Lexeme} {input : List Item}
  {ds ds' : List Diagnostic} {verdict : Verdict} {messages : List String}
  {r : Except Error (List (Option Int))} {results results' : List (Option Int)}

namespace Diagnoses

theorem unique (h : Diagnoses m cells ls ds) (h' : Diagnoses m cells ls ds') :
    ds = ds' := by
  induction h generalizing ds' with
  | accepted hsettles =>
    cases h' with
    | accepted => rfl
    | moved hsettles' => cases hsettles.unique hsettles'
  | moved hsettles hcomplains _ ih =>
    cases h' with
    | accepted hsettles' => cases hsettles.unique hsettles'
    | moved hsettles' hcomplains' h' =>
      cases hsettles.unique hsettles'
      rw [hcomplains.unique hcomplains', ih h']

theorem congr (h : Settles m l.terminal l.value cells verdict)
    (h' : Settles m l.terminal l.value cells' verdict)
    (hcomplains : Complains m l.terminal l.value cells messages)
    (hcomplains' : Complains m l.terminal l.value cells' messages)
    (hds : Diagnoses m cells (.ok l :: rest) ds) : Diagnoses m cells' (.ok l :: rest) ds := by
  cases hds with
  | accepted hsettles =>
    obtain rfl := h.unique hsettles
    exact .accepted h'
  | moved hsettles hsaid hds =>
    obtain rfl := h.unique hsettles
    obtain rfl := hcomplains.unique hsaid
    exact .moved h' hcomplains' hds

theorem earlier (h : Diagnoses m cells' ls ds) (hcells : Earlier es cells cells') :
    Diagnoses m cells ls ds := by
  induction h generalizing cells with
  | accepted hsettles =>
    obtain ⟨verdict, hverdict, hcarries⟩ := hsettles.earlier hcells
    cases hcarries
    exact .accepted hverdict
  | moved hsettles hcomplains _ ih =>
    obtain ⟨verdict, hverdict, hcarries⟩ := hsettles.earlier hcells
    cases hcarries with
    | moved hmoved => exact .moved hverdict (hcomplains.earlier hcells) (ih hmoved)

theorem shift (n : Nat) (h : Diagnoses m cells ls ds) :
    Diagnoses m cells (ls.map (Lexeme.shift n)) (ds.map (Diagnostic.shift n)) := by
  induction h with
  | accepted hsettles => exact .accepted hsettles
  | moved hsettles hcomplains _ ih =>
    rw [List.map_append, List.map_map]
    exact .moved hsettles hcomplains ih

theorem exists_token (h : Diagnoses m cells ls ds) : ∃ l rest, ls = .ok l :: rest := by
  cases h with
  | accepted | moved => exact ⟨_, _, rfl⟩

theorem of_boundary (hboundary : Boundary m us cells)
    (hl : l.terminal ∈ Nonterminal.statement.follow) (h : Diagnoses m cells (.ok l :: rest) ds) :
    Diagnoses m (base us) (.ok l :: rest) ds := by
  obtain ⟨verdict, hbase, hcells⟩ := hboundary.settles hl l.value
  obtain ⟨hbase', hcells'⟩ := hboundary.complains hl l.value
  exact .congr hcells hbase hcells' hbase' h

theorem of_base (h : Diagnoses m (base us) ls ds) : Diagnoses m (base []) ls ds :=
  h.earlier (base_earlier us)

end Diagnoses

theorem Takes.diagnoses (h : Takes m cells w cells') {body : List Lexeme}
    (hbody : body.map item = w.map .ok) : ∃ ds, ∀ rest ds', Diagnoses m cells (body ++ rest) ds' →
      ∃ ds'', ds' = ds ++ ds'' ∧ Diagnoses m cells' rest ds'' := by
  induction h generalizing body with
  | nil =>
    obtain rfl := List.map_eq_nil_iff.mp hbody
    exact ⟨[], fun rest ds' h => ⟨ds', rfl, h⟩⟩
  | cons hsettles _ ih =>
    obtain ⟨l, tail, rfl, rfl, rfl, htail⟩ := exists_token hbody
    obtain ⟨messages, hcomplains⟩ := hsettles.complains
    obtain ⟨ds, hds⟩ := ih htail
    refine ⟨messages.map (Diagnostic.mk l.span) ++ ds, fun rest ds' h => ?_⟩
    cases h with
    | accepted hsettles' => cases hsettles.unique hsettles'
    | moved hsettles' hcomplains' h =>
      cases hsettles.unique hsettles'
      obtain rfl := hcomplains.unique hcomplains'
      obtain ⟨ds'', rfl, hrest⟩ := hds rest _ h
      exact ⟨ds'', by rw [List.append_assoc], hrest⟩

theorem After.boundary (h : After m w cells) (hend : Evaluates m cells [eof] (.ok results)) :
    ∃ us, Boundary m us cells := by
  cases h with
  | start => exact ⟨_, .start⟩
  | inside _ hhead => exact absurd hhead hend.not_inside
  | empty us => exact ⟨_, .empty us⟩
  | closed us n => exact ⟨_, .closed us n⟩
  | skipped us => exact ⟨_, .skipped us⟩

theorem Evaluates.not_strays
    (h : Evaluates m [⟨.start, .value .nothing⟩] input (.ok results)) : ¬ Strays input := by
  rintro ⟨t, v, rest, rfl, ht⟩
  rcases Boundary.start.settles_stray ht v with ⟨-, hsettles⟩ | ⟨hne, -⟩
  · cases h.of_refused hsettles
  · exact absurd rfl hne

theorem Boundary.evaluates_program (h : Boundary m us cells) (hinput : Readable input)
    (hprogram : Evaluates m [⟨.start, .value .nothing⟩] input (.ok results))
    (hr : Evaluates m cells input r) : r = .ok (us.filterMap id ++ results) := by
  have hstray := hprogram.not_strays
  obtain ⟨q, hq, hresults⟩ := Boundary.start.evaluates_base hinput hstray hprogram
  obtain ⟨q', hq', rfl⟩ := h.evaluates_base hinput hstray hr
  obtain rfl := hq.unique hq'
  cases q with
  | ok results' =>
    cases hresults
    rfl
  | error e => cases hresults

theorem Boundary.diagnoses_program (h : Boundary m us cells)
    (hinput : Readable (ls.map item)) (hstray : ¬ Strays (ls.map item))
    (hprogram : Diagnoses m [⟨.start, .value .nothing⟩] ls ds)
    (hds : Diagnoses m cells ls ds') : ds' = ds := by
  obtain ⟨l, rest, rfl⟩ := hprogram.exists_token
  have hl : l.terminal ∈ Nonterminal.statement.follow :=
    (mem_follow_or_strays (hinput _ List.mem_cons_self).2).resolve_right hstray
  exact (hds.of_boundary h hl).of_base.unique (hprogram.of_boundary .start hl)

section Texts

variable {σ : Type}

theorem calculate_results {user : σ} {history : List String} {source : String} {o : Outcome}
    {t : Session σ} (h : calculate user history source = .ok o t) :
    Evaluates Evaluator.arithmetic [⟨.start, .value .nothing⟩] (items source) (.ok o.results) := by
  obtain ⟨r, hsummary, hr⟩ := calculate_evaluates user history source
  cases hsummary.symm.trans (summary_of_ok h)
  exact hr

theorem calculate_reads {user : σ} {history : List String} {source : String} {o : Outcome}
    {t : Session σ} (h : calculate user history source = .ok o t) {body : List Lexeme} {span : Span}
    (hbody : ∀ l ∈ body, Inner (item l))
    (hsource : lexemes source = body ++ [.ok ⟨.eof, .nothing, span⟩]) :
    ∃ w us cells, body.map item = w.map .ok ∧
      Takes Evaluator.arithmetic [⟨.start, .value .nothing⟩] w cells ∧
      Boundary Evaluator.arithmetic us cells ∧ us.filterMap id = o.results ∧
      ∀ rest ds, Diagnoses Evaluator.arithmetic [⟨.start, .value .nothing⟩] (body ++ rest) ds →
        ∃ ds', ds = o.diagnostics ++ ds' ∧ Diagnoses Evaluator.arithmetic cells rest ds' := by
  have hresults := calculate_results h
  rw [items, hsource, List.map_append] at hresults
  obtain ⟨w, hw, hlexed⟩ := hresults.exists_word (List.forall_mem_map.mpr hbody)
  rw [hw] at hresults
  obtain ⟨cells, htakes, hend⟩ := hresults.takes fun tv hmem => (hlexed tv hmem).2.1
  have hafter : After Evaluator.arithmetic w cells := After.start.takes .start hlexed htakes
  obtain ⟨us, hboundary⟩ := hafter.boundary hend
  have hown := Except.ok.inj (hboundary.evaluates_eof hend)
  refine ⟨w, us, cells, hw, htakes, hboundary, hown.symm, ?_⟩
  obtain ⟨above, habove⟩ := htakes.diagnoses hw
  have hdiagnoses := calculate_diagnoses h
  rw [hsource] at hdiagnoses
  obtain ⟨last, hlast, hnone⟩ := habove _ _ hdiagnoses
  have hnil : last = [] := by
    cases hnone with
    | accepted => rfl
    | moved _ _ h => cases h
  rw [hlast, hnil, List.append_nil]
  exact habove

/-- Two well-formed programs below each other come to the results and the diagnostics of both, those
of the second one moved by the bytes above it, in whatever sessions they are calculated. -/
theorem calculate_below (user user' user'' : σ) (history history' history'' : List String)
    {p q : String} {o o' : Outcome} {t t' : Session σ}
    (hp : calculate user history p = .ok o t) (hq : calculate user' history' q = .ok o' t') :
    ∃ t'', calculate user'' history'' (p ++ "\n" ++ q) = .ok ⟨o.results ++ o'.results,
      o.diagnostics ++ o'.diagnostics.map (Diagnostic.shift (p.utf8ByteSize + 1))⟩ t'' := by
  obtain ⟨body, hbody, ⟨span, hline⟩, hbelow⟩ := lexemes_line p q
  obtain ⟨w, us, cells, hw, htakes, hboundary, hown, habove⟩ := calculate_reads hp hbody hline
  have hshifted : ((lexemes q).map (Lexeme.shift (p.utf8ByteSize + 1))).map item = items q :=
    map_item_shift _ _
  have hprogram := calculate_results hq
  -- The machine comes to the end of the first program, and from there to the results of the second.
  obtain ⟨r, hsummary, hr⟩ := calculate_evaluates user'' history'' (p ++ "\n" ++ q)
  rw [items, hbelow, List.map_append, hshifted, hw] at hr
  obtain rfl := hboundary.evaluates_program (items_readable q) hprogram (htakes.evaluates hr)
  obtain ⟨ds, t'', hboth⟩ := ok_of_summary hsummary
  -- So there are diagnostics, and they split in the same place.
  have hdiagnoses := calculate_diagnoses hboth
  rw [hbelow] at hdiagnoses
  obtain ⟨below, rfl, hrest⟩ := habove _ _ hdiagnoses
  obtain rfl := hboundary.diagnoses_program (hshifted ▸ items_readable q)
    (hshifted ▸ hprogram.not_strays) ((calculate_diagnoses hq).shift _) hrest
  rw [hown] at hboth
  exact ⟨t'', hboth⟩

theorem calculate_below_broken :
    ∃ ds ds' t t' t'',
      calculate () [] "1 + ; 2; # é" = .ok ⟨[none, some 2], ds⟩ t ∧
      calculate () ["+"] "3; 5 6; 4;" = .ok ⟨[some 3, none, some 4], ds'⟩ t' ∧
      calculate () ["1 / 0;"] ("1 + ; 2; # é" ++ "\n" ++ "3; 5 6; 4;") =
        .ok ⟨[none, some 2, some 3, none, some 4], ds ++ ds'.map (Diagnostic.shift 14)⟩ t'' ∧
      ds.map Diagnostic.span = [⟨4, 5⟩] ∧ ds'.map Diagnostic.span = [⟨5, 6⟩, ⟨5, 6⟩] := by
  have hsummary : (answer? (calculate () [] "1 + ; 2; # é")).map
      (fun o => (o.results, o.diagnostics.map Diagnostic.span)) =
      some ([none, some 2], [⟨4, 5⟩]) := by decide +kernel
  have hsummary' : (answer? (calculate () ["+"] "3; 5 6; 4;")).map
      (fun o => (o.results, o.diagnostics.map Diagnostic.span)) =
      some ([some 3, none, some 4], [⟨5, 6⟩, ⟨5, 6⟩]) := by decide +kernel
  obtain ⟨o, ho, hspans⟩ := Option.map_eq_some_iff.mp hsummary
  obtain ⟨o', ho', hspans'⟩ := Option.map_eq_some_iff.mp hsummary'
  obtain ⟨t, hp⟩ := ok_of_answer? ho
  obtain ⟨t', hq⟩ := ok_of_answer? ho'
  obtain ⟨t'', hboth⟩ := calculate_below () () () [] ["+"] ["1 / 0;"] hp hq
  obtain ⟨rs, ds⟩ := o
  obtain ⟨rs', ds'⟩ := o'
  obtain ⟨rfl, hspans⟩ := Prod.mk.inj hspans
  obtain ⟨rfl, hspans'⟩ := Prod.mk.inj hspans'
  exact ⟨ds, ds', t, t', t'', hp, hq, hboth, hspans, hspans'⟩

end Texts

end ShiftReduce.Calculator
