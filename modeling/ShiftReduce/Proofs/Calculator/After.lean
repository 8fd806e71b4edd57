import ShiftReduce.Proofs.Calculator.Pieces

namespace ShiftReduce.Calculator

variable {m : Arithmetic} {t : Terminal} {v : Value} {cells cells' : List Cell} {w : Word}
  {verdict : Verdict}

section Proper

theorem Decides.proper (h : Decides m t v cells (.moved cells')) (hproper : Proper cells)
    (hshaped : Shaped t v) : Proper cells' := by
  generalize hverdict : Verdict.moved cells' = verdict at h
  induction h with
  | shift haction =>
    cases hverdict
    exact hproper.shift haction hshaped
  | reduce haction hreduces hcontent _ ih =>
    obtain ⟨-, hnext⟩ := hproper.reduces_clean haction hreduces
    exact ih (hnext _ (m.yields hcontent)) hverdict
  | refuse | accept | breaks => cases hverdict

theorem proper_skipping (h : Proper cells) (hhandler : handler cells ≠ []) :
    Proper (skipping (handler cells)) := by
  have hproper := h.handler hhandler
  obtain ⟨c, rest, hcells⟩ := handler_eq_cons cells hhandler
  rw [hcells] at hproper ⊢
  exact hproper.shift rfl .error

theorem Settles.proper (h : Settles m t v cells (.moved cells')) (hproper : Proper cells)
    (hshaped : Shaped t v) : Proper cells' := by
  generalize hverdict : Verdict.moved cells' = verdict at h
  cases h with
  | decided _ hdecides =>
    subst hverdict
    exact hdecides.proper hproper hshaped
  | resumed =>
    rw [resume] at hverdict
    split at hverdict
    · cases hverdict
    next hhandler =>
      have hskipping := proper_skipping hproper hhandler
      split at hverdict
      next ht =>
        cases hverdict
        exact hskipping.shift (t := .semicolon) rfl (ht ▸ hshaped)
      · split at hverdict <;> cases hverdict
        exact hskipping

end Proper

theorem Settles.head (h : Settles m t v cells (.moved cells')) :
    ∃ cell rest, cells' = cell :: rest ∧
      (cell.state.entry = .terminal t ∨ cell.state = .skipping ∧ t ≠ .semicolon) := by
  generalize hverdict : Verdict.moved cells' = verdict at h
  cases h with
  | decided hne hdecides =>
    clear hne
    induction hdecides with
    | shift haction =>
      cases hverdict
      exact ⟨_, _, rfl, .inl (State.entry_of_shift haction)⟩
    | reduce _ _ _ _ ih => exact ih hverdict
    | refuse | accept | breaks => cases hverdict
  | resumed =>
    rw [resume] at hverdict
    split at hverdict
    · cases hverdict
    · split at hverdict
      next ht =>
        cases hverdict
        exact ⟨_, _, rfl, .inl (ht ▸ rfl)⟩
      next ht =>
        split at hverdict <;> cases hverdict
        exact ⟨_, _, rfl, .inr ⟨rfl, ht⟩⟩

section Boundary

theorem Fits.mark {c : Content} (h : Fits (.terminal t) c) (hint : t ≠ .int) (hident : t ≠ .ident) :
    c = .value .nothing := by
  cases h with
  | token hshaped =>
    cases hshaped with
    | int => exact absurd rfl hint
    | ident => exact absurd rfl hident
    | mark => rfl

theorem Fits.of_nonterminal {n : Nonterminal} {c : Content} (h : Fits (.nonterminal n) c) :
    ∃ d, c = n.content d := by
  cases h with
  | denoted _ d => exact ⟨d, rfl⟩

theorem Path.eq_of_trails {q : State} {qs trail : List State} (h : Path (q :: qs)) {n : Nat}
    (htrails : q.trails n = [q :: trail]) (hn : trail.length < n) : qs = trail := by
  have htrail := h.take_mem_trails n
  rw [htrails, List.mem_singleton, List.take_succ_cons] at htrail
  obtain ⟨-, htake⟩ := List.cons.inj htrail
  have hlength := congrArg List.length htake
  rw [List.length_take] at hlength
  rwa [List.take_of_length_le (by omega)] at htake

theorem Proper.eq_base (h : Proper cells) (hstates : cells.map Cell.state = [.statements, .start]) :
    ∃ us, cells = base us := by
  obtain ⟨⟨_, c⟩, _, rfl, rfl, hrest⟩ := List.map_eq_cons_iff.mp hstates
  obtain ⟨⟨_, d⟩, _, rfl, rfl, hnil⟩ := List.map_eq_cons_iff.mp hrest
  obtain rfl := List.map_eq_nil_iff.mp hnil
  obtain ⟨us, rfl⟩ := (h.fits ⟨.statements, c⟩ (by simp)).of_nonterminal
  obtain ⟨_, rfl⟩ := (h.fits ⟨.start, d⟩ (by simp)).of_nonterminal
  exact ⟨us, rfl⟩

theorem Proper.tail {cell : Cell} (h : Proper (cell :: cells)) (hcells : cells ≠ []) :
    Proper cells := by
  obtain ⟨cell', rest, rfl⟩ := List.exists_cons_of_ne_nil hcells
  have happend : Proper ([cell] ++ cell' :: rest) := h
  exact happend.of_append

theorem Proper.eq_cons_base {q q' : State} {c : Content} (h : Proper (⟨q, c⟩ :: cells))
    (htrails : q.trails 4 = [[q, q', .statements, .start]]) :
    ∃ d us, Fits q'.entry d ∧ cells = ⟨q', d⟩ :: base us := by
  have hpath : cells.map Cell.state = [q', .statements, .start] :=
    h.path.eq_of_trails htrails (Nat.lt_succ_self 3)
  obtain ⟨⟨_, d⟩, rest, rfl, rfl, hrest⟩ := List.map_eq_cons_iff.mp hpath
  have hne : rest ≠ [] := by
    rintro rfl
    cases hrest
  obtain ⟨us, rfl⟩ := ((h.tail (List.cons_ne_nil _ _)).tail hne).eq_base hrest
  exact ⟨d, us, h.fits ⟨_, d⟩ (by simp), rfl⟩

theorem Proper.closed {c : Content} (h : Proper (⟨.closedStatement, c⟩ :: cells)) :
    ∃ us n, ⟨.closedStatement, c⟩ :: cells =
      ⟨.closedStatement, .value .nothing⟩ :: ⟨.expression, .value (.number n)⟩ :: base us := by
  have htrails : State.closedStatement.trails 4 =
      [[.closedStatement, .expression, .statements, .start]] := by decide +kernel
  obtain ⟨d, us, hd, rfl⟩ := h.eq_cons_base htrails
  obtain rfl := (h.fits ⟨.closedStatement, c⟩ (by simp)).mark nofun nofun
  obtain ⟨n, rfl⟩ := hd.of_nonterminal
  exact ⟨us, n, rfl⟩

theorem Proper.skipped {c : Content} (h : Proper (⟨.skipped, c⟩ :: cells)) :
    ∃ us, ⟨.skipped, c⟩ :: cells = ⟨.skipped, .value .nothing⟩ :: skipping (base us) := by
  have htrails : State.skipped.trails 4 = [[.skipped, .skipping, .statements, .start]] := by
    decide +kernel
  obtain ⟨d, us, hd, rfl⟩ := h.eq_cons_base htrails
  obtain rfl := (h.fits ⟨.skipped, c⟩ (by simp)).mark nofun nofun
  obtain rfl := hd.mark nofun nofun
  exact ⟨us, rfl⟩

end Boundary

section Semicolon

variable {cell : Cell}

theorem Decides.closes (h : Decides m .semicolon v (cell :: cells) (.moved cells'))
    (hinner : cell.state.inner = true) : ∃ c rest, cells' = ⟨.closedStatement, c⟩ :: rest := by
  generalize hall : cell :: cells = all at h
  generalize hverdict : Verdict.moved cells' = verdict at h
  induction h generalizing cell cells with
  | shift haction =>
    cases hall
    cases hverdict
    obtain ⟨-, rfl⟩ := State.of_shift_semicolon haction hinner
    exact ⟨_, _, rfl⟩
  | reduce haction hreduces _ _ ih =>
    cases hall
    obtain ⟨popped, r, rest, -, -, -, hgoto⟩ := hreduces.split
    exact ih ((State.inner_of_reduce haction hinner).2 _ _ hgoto) rfl hverdict
  | refuse | accept | breaks => cases hverdict

theorem Settles.closes (h : Settles m .semicolon v (cell :: cells) (.moved cells'))
    (hhead : cell.state.inner = true ∨ cell.state = .skipping) :
    ∃ c rest, cells' = ⟨.closedStatement, c⟩ :: rest ∨ cells' = ⟨.skipped, c⟩ :: rest := by
  generalize hverdict : Verdict.moved cells' = verdict at h
  cases h with
  | decided _ hdecides =>
    subst hverdict
    rcases hhead with hinner | hskipping
    · obtain ⟨c, rest, hcells⟩ := hdecides.closes hinner
      exact ⟨c, rest, .inl hcells⟩
    · have haction : action cell.state .semicolon = .shift .skipped := by
        rw [hskipping]
        rfl
      cases hdecides.of_shift haction
      exact ⟨_, _, .inr rfl⟩
  | resumed =>
    rw [resume] at hverdict
    split at hverdict
    · cases hverdict
    · cases hverdict
      exact ⟨_, _, .inr rfl⟩

end Semicolon

def Closes (w : Word) : Prop := ∃ u tv, w = u ++ [tv, semicolon] ∧ tv.1 ≠ .semicolon

theorem not_closes (hw : w = [] ∨ ∃ u, w = u ++ [semicolon]) : ¬ Closes (w ++ [semicolon]) := by
  rintro ⟨u, tv, hclosed, htv⟩
  rw [List.append_cons u] at hclosed
  obtain rfl := List.append_cancel_right hclosed
  rcases hw with hnil | ⟨u', hu'⟩
  · exact List.append_ne_nil_of_right_ne_nil u (List.cons_ne_nil tv []) hnil
  · obtain ⟨-, hlast⟩ := List.append_inj' hu' rfl
    cases hlast
    exact htv rfl

inductive After (m : Arithmetic) : Word → List Cell → Prop
  | start : After m [] [⟨.start, .value .nothing⟩]
  | inside {w : Word} {tv : Terminal × Value} {cell : Cell} {rest : List Cell} :
      tv.1 ≠ .semicolon → cell.state.inner = true ∨ cell.state = .skipping →
      After m (w ++ [tv]) (cell :: rest)
  | empty {w : Word} (us) : ¬ Closes (w ++ [semicolon]) →
      After m (w ++ [semicolon]) (⟨.emptyStatement, .value .nothing⟩ :: base us)
  | closed {w : Word} (us n) : Closes w → After m w
      (⟨.closedStatement, .value .nothing⟩ :: ⟨.expression, .value (.number n)⟩ :: base us)
  | skipped {w : Word} (us) : Closes w →
      After m w (⟨.skipped, .value .nothing⟩ :: skipping (base us))

namespace After

theorem settles (h : After m w cells) (hproper : Proper cells) (hlexed : Lexed (t, v))
    (hsettles : Settles m t v cells (.moved cells')) : After m (w ++ [(t, v)]) cells' := by
  by_cases ht : t = .semicolon
  · rw [eq_semicolon hlexed ht]
    subst ht
    have hends : ∀ {us}, Boundary m us cells → (w = [] ∨ ∃ u, w = u ++ [semicolon]) →
        After m (w ++ [semicolon]) cells' := by
      intro us hboundary hw
      cases hsettles.unique hboundary.settles_semicolon
      cases eq_semicolon hlexed rfl
      exact .empty us (not_closes hw)
    have hcloses : Closes w → w = [] ∨ ∃ u, w = u ++ [semicolon] := by
      rintro ⟨u, tv, rfl, -⟩
      exact .inr ⟨u ++ [tv], by simp⟩
    have hproper' := hsettles.proper hproper hlexed.1
    cases h with
    | start => exact hends .start (.inl rfl)
    | empty us => exact hends (.empty us) (.inr ⟨_, rfl⟩)
    | closed us n hw => exact hends (.closed us n) (hcloses hw)
    | skipped us hw => exact hends (.skipped us) (hcloses hw)
    | @inside w tv cell rest htv hhead =>
      have hw : Closes (w ++ [tv] ++ [semicolon]) := ⟨w, tv, by simp, htv⟩
      obtain ⟨c, rest, rfl | rfl⟩ := hsettles.closes hhead
      · obtain ⟨us, n, hcells⟩ := hproper'.closed
        rw [hcells]
        exact .closed us n hw
      · obtain ⟨us, hcells⟩ := hproper'.skipped
        rw [hcells]
        exact .skipped us hw
  · obtain ⟨cell, rest, rfl, hhead⟩ := hsettles.head
    refine .inside ht (hhead.imp (fun hentry => ?_) And.left)
    exact State.inner_of_entry hentry ht hlexed.2.2

theorem takes {u : Word} (h : After m w cells) (hproper : Proper cells)
    (hu : ∀ tv ∈ u, Lexed tv) (htakes : Takes m cells u cells') : After m (w ++ u) cells' := by
  induction htakes generalizing w with
  | nil =>
    rw [List.append_nil]
    exact h
  | cons hsettles _ ih =>
    obtain ⟨hlexed, htail⟩ := List.forall_mem_cons.mp hu
    rw [List.append_cons]
    exact ih (h.settles hproper hlexed hsettles) (hsettles.proper hproper hlexed.1) htail

end After

end ShiftReduce.Calculator
