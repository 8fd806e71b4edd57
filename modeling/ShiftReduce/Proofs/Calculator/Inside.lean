import ShiftReduce.Proofs.Calculator.Boundary

namespace ShiftReduce.Calculator

namespace State

def inner : State → Bool
  | .start | .accepting | .statements | .skipping | .emptyStatement | .statement | .skipped
  | .closedStatement => false
  | _ => true

theorem inner_of_entry {q : State} {t : Terminal} (hentry : q.entry = .terminal t)
    (ht : t ≠ .semicolon) (herror : t ≠ .error) : q.inner = true := by
  cases q <;> cases hentry <;> first | rfl | exact absurd rfl ht | exact absurd rfl herror

theorem of_shift_semicolon {q next : State} (h : action q .semicolon = .shift next)
    (hq : q.inner = true) : q = .expression ∧ next = .closedStatement := by
  cases q with
  | expression =>
    cases h
    exact ⟨rfl, rfl⟩
  | start | accepting | statements | skipping | emptyStatement | statement | skipped
  | closedStatement => cases hq
  | _ => cases h

theorem inner_of_reduce {q : State} {t : Terminal} {p : Production} (h : action q t = .reduce p)
    (hq : q.inner = true) : .nonterminal .statements ∉ p.rhs ∧
      ∀ r next, goto r p.rule.lhs = some next → next.inner = true := by
  have htable : ∀ p ∈ Production.all, p.home.inner = true → .nonterminal .statements ∉ p.rhs ∧
      ∀ r ∈ all, ∀ next ∈ goto r p.rule.lhs, next.inner = true := by decide +kernel
  obtain ⟨-, rfl⟩ := home_of_reduce h
  obtain ⟨hrhs, hgoto⟩ := htable p p.mem_all hq
  exact ⟨hrhs, fun r next => hgoto r r.mem_all next⟩

theorem handlesError_of_inner {q : State} (h : q.inner = true) : handlesError q = false := by
  cases q <;> first | rfl | cases h

end State

variable {m : Arithmetic} {t : Terminal} {v : Value} {us : List (Option (Option Int))}
  {top : List Cell} {w : Word} {verdict : Verdict}

/-- The cells above the statements are those of an expression of which `w` was read. -/
structure Inside (us : List (Option (Option Int))) (w : Word) (top : List Cell) : Prop where
  proper : Proper (top ++ base us)
  inner : ∀ cell ∈ top, cell.state.inner = true
  covers : Covers (top ++ base us) w

theorem Arithmetic.yields {work : Work} {c : Content} (h : m.content work = .ok c) :
    work.Yields c := by
  cases work with
  | done d =>
    cases h
    exact .done _
  | perform call =>
    have hanswer : ∀ {α : Type} {f : α → Value} {x : Except Error α},
        (.value <$> (f <$> x) : Except Error Content) = .ok c → ∃ a, c = .value (f a) := by
      intro α f x h
      cases x with
      | ok a =>
        cases h
        exact ⟨a, rfl⟩
      | error e => cases h
    cases call with
    | program | statement | recovered =>
      cases h
      exact .performed ⟨_, rfl⟩
    | add | sub | mul | div | neg | call =>
      obtain ⟨n, rfl⟩ := hanswer h
      exact .performed ⟨n, rfl⟩

def ground (us : List Value) : List Cell :=
  [⟨.statements, .list us⟩, ⟨.start, .value .nothing⟩]

theorem popped_of_ground {popped below : List Cell} {cell : Cell} {us : List Value}
    (h : top ++ ground us = popped ++ cell :: below) :
    (∃ as, top = popped ++ as ∧ as ++ ground us = cell :: below) ∨
      popped = top ++ [⟨.statements, .list us⟩] ∧ cell = ⟨.start, .value .nothing⟩ ∧
        below = [] := by
  rcases List.append_eq_append_iff.mp h with ⟨as, rfl, has⟩ | ⟨as, rfl, has⟩
  · match as, has with
    | [], has => exact .inl ⟨[], by simp, has⟩
    | [_], has =>
      cases has
      exact .inr ⟨rfl, rfl, rfl⟩
    | _ :: _ :: as, has =>
      obtain ⟨-, has⟩ := List.cons.inj has
      obtain ⟨-, has⟩ := List.cons.inj has
      cases as <;> cases has
  · exact .inl ⟨as, rfl, has.symm⟩

theorem Reduces.split {p : Production} {cells below : List Cell} {work : Work} {next : State}
    (h : Reduces p cells work next below) :
    ∃ popped cell rest, cells = popped ++ below ∧ below = cell :: rest ∧
      (popped.map fun c => c.state.entry).reverse = p.rhs ∧
      goto cell.state p.rule.lhs = some next := by
  obtain ⟨hpopped, hasks, hgoto⟩ := h
  exact ⟨_, _, _, rfl, rfl, hpopped, hgoto⟩

namespace Inside

theorem reduces (h : Inside us w top) {cell : Cell} {cells below : List Cell} {p : Production}
    {work : Work} {next : State} (hcells : top ++ base us = cell :: cells) (ht : t ≠ .eof)
    (haction : action cell.state t = .reduce p)
    (hreduces : Reduces p (cell :: cells) work next below) :
    ∃ top', below = top' ++ base us ∧ ∀ c, work.Yields c → Inside us w (⟨next, c⟩ :: top') := by
  cases top with
  | nil =>
    -- The statements are reduced at the end of the input only.
    obtain ⟨rfl, rfl⟩ := List.cons.inj hcells
    cases t <;> cases haction
    exact absurd rfl ht
  | cons first top =>
    obtain ⟨rfl, rfl⟩ := List.cons.inj hcells
    have hp := (home_of_reduce haction).1
    obtain ⟨hrhs, hnext⟩ := State.inner_of_reduce haction (h.inner first List.mem_cons_self)
    have hproper := (h.proper.reduces_clean haction hreduces).2
    have hcovers := h.covers.reduces hp hreduces
    obtain ⟨popped, r, rest, hall, hr, hpopped, hgoto⟩ := hreduces.split
    have hbelow : ∃ top', below = top' ++ base us ∧ ∀ cell ∈ top', cell.state.inner = true := by
      have hall : (first :: top) ++ ground (us.map statementValue) = popped ++ r :: rest :=
        hr ▸ hall
      rcases popped_of_ground hall with ⟨as, has, hrest⟩ | ⟨rfl, -⟩
      · rw [has] at h
        refine ⟨as, hr.trans hrest.symm, fun cell hcell => ?_⟩
        exact h.inner cell (List.mem_append_right _ hcell)
      · rw [← hpopped] at hrhs
        exact absurd (by simp [State.entry]) hrhs
    obtain ⟨top', hbelow, hinner⟩ := hbelow
    refine ⟨top', hbelow, fun c hc => ⟨?_, ?_, ?_⟩⟩
    · rw [List.cons_append, ← hbelow]
      exact hproper c hc
    · exact List.forall_mem_cons.mpr ⟨hnext _ _ hgoto, hinner⟩
    · rw [List.cons_append, ← hbelow]
      exact hcovers c

end Inside

inductive Onward (m : Arithmetic) (us : List (Option (Option Int))) (w : Word) (top : List Cell)
    (t : Terminal) (v : Value) : Verdict → Prop
  | refused : Onward m us w top t v .refused
  | broke {e} : Onward m us w top t v (.broke e)
  | shifted {top' cell cells next} : Inside us w top' → (top' = [] → top = []) →
      top' ++ base us = cell :: cells → action cell.state t = .shift next →
      Onward m us w top t v (.moved (⟨next, .value v⟩ :: (top' ++ base us)))

theorem Inside.decides (h : Inside us w top) (hd : Decides m t v (top ++ base us) verdict)
    (ht : t ≠ .eof) : Onward m us w top t v verdict := by
  generalize hcells : top ++ base us = cells at hd
  induction hd generalizing top with
  | refuse => exact .refused
  | accept haction => exact absurd (eq_of_accept haction).2 ht
  | shift haction =>
    rw [← hcells]
    exact .shifted h id hcells haction
  | breaks => exact .broke
  | reduce haction hreduces hcontent hdecides ih =>
    obtain ⟨top', rfl, hinside⟩ := h.reduces hcells ht haction hreduces
    cases ih (hinside _ (m.yields hcontent)) rfl with
    | refused => exact .refused
    | broke => exact .broke
    | shifted hinside' hne hcells' haction' =>
      refine .shifted hinside' (fun hnil => ?_) hcells' haction'
      cases hne hnil

theorem proper_base : Proper (base us) :=
  Proper.start.cons (.advance (.nonterminal .statements) .start rfl) (.denoted .statements us)

theorem covers_base : Covers (base us) [] :=
  (Covers.start (.value .nothing)).cons (.tree .noStatement)

theorem Inside.nil : Inside us [] [] := ⟨proper_base, nofun, covers_base⟩

theorem Tree.exists_semicolon (tree : Tree .statements) :
    tree.yield = [] ∨ ∃ tv ∈ tree.yield, tv.1 = .semicolon := by
  cases tree with
  | noStatement => exact .inl rfl
  | nextStatement ss s =>
    refine .inr ⟨(.semicolon, .nothing), List.mem_append_right _ ?_, rfl⟩
    cases s with
    | evaluated e => exact List.mem_append_right _ (List.mem_singleton_self _)
    | empty => exact List.mem_singleton_self _

theorem Covers.eq_nil (h : Covers (base us) w) (hw : ∀ tv ∈ w, tv.1 ≠ .semicolon) : w = [] := by
  cases h with
  | cons hcovers hderives =>
    cases hcovers with
    | start =>
      obtain ⟨tree, rfl⟩ := hderives.of_nonterminal
      rcases tree.exists_semicolon with hnil | ⟨tv, hmem, htv⟩
      · exact hnil
      · exact absurd htv (hw tv hmem)
    | cons hcovers => cases hcovers

theorem goto_expression {q : State} (h : goto q .expr = some .expression) : q = .statements := by
  cases q <;> first | rfl | cases h

theorem Inside.closed (h : Inside us w top) (hw : ∀ tv ∈ w, tv.1 ≠ .semicolon) (htop : top ≠ [])
    {cell : Cell} {cells : List Cell} {next : State} (hcells : top ++ base us = cell :: cells)
    (haction : action cell.state .semicolon = .shift next) :
    ∃ tree : Tree .expr, tree.yield = w := by
  cases top with
  | nil => exact absurd rfl htop
  | cons first top =>
    obtain ⟨rfl, -⟩ := List.cons.inj hcells
    obtain ⟨hstate, -⟩ := State.of_shift_semicolon haction (h.inner first List.mem_cons_self)
    have hpath := h.proper.path
    have htop : top = [] := by
      cases top with
      | nil => rfl
      | cons second top =>
        have hgoto := hpath.advance_eq
        rw [hstate] at hgoto
        have hinner := h.inner second (by simp)
        rw [goto_expression hgoto] at hinner
        cases hinner
    subst htop
    have hcovers : Covers (first :: base us) w := h.covers
    cases hcovers with
    | @cons _ _ u u' hbase hderives =>
      obtain rfl := hbase.eq_nil fun tv htv => hw tv (List.mem_append_left _ htv)
      rw [hstate] at hderives
      obtain ⟨tree, rfl⟩ := hderives.of_nonterminal
      exact ⟨tree, rfl⟩

section Steps

variable {rest : List Item} {r : Except Error (List (Option Int))}

theorem handler_inside (h : ∀ cell ∈ top, cell.state.inner = true) :
    handler (top ++ base us) = base us := by
  induction top with
  | nil => rfl
  | cons cell top ih =>
    obtain ⟨hcell, htop⟩ := List.forall_mem_cons.mp h
    have hskip : (!handlesError cell.state) = true := by
      rw [State.handlesError_of_inner hcell]
      rfl
    simp only [handler, List.cons_append, List.dropWhile_cons, hskip, if_true]
    exact ih htop

theorem handler_skipping : handler (skipping (base us)) = base us := rfl

theorem resume_of_handler {cells : List Cell} (h : handler cells = base us)
    (ht : t ≠ .semicolon) (heof : t ≠ .eof) :
    resume t v cells = .moved (skipping (base us)) := by
  rw [resume, h, if_neg nofun, if_neg ht, if_neg heof]

theorem resume_semicolon {cells : List Cell} (h : handler cells = base us) :
    resume .semicolon v cells = .moved (⟨.skipped, .value v⟩ :: skipping (base us)) := by
  rw [resume, h, if_neg nofun, if_pos rfl]

theorem resume_eof (cells : List Cell) : resume .eof v cells = .refused := by simp [resume]

theorem Evaluates.of_eof_error {cell : Cell} {cells : List Cell}
    (haction : action cell.state .eof = .error)
    (hr : Evaluates m (cell :: cells) (.ok (.eof, v) :: rest) r) : r = .error (.rejected []) := by
  have hdecides : Decides m .eof v (cell :: cells) .refused := .refuse haction
  have hrefused := Settles.resumed hdecides
  rw [resume_eof] at hrefused
  exact hr.of_refused hrefused

theorem Inside.shift (h : Inside us w top) {cell : Cell} {cells : List Cell} {next : State}
    (hcells : top ++ base us = cell :: cells) (haction : action cell.state t = .shift next)
    (hlexed : Lexed (t, v)) (ht : t ≠ .semicolon) :
    Inside us (w ++ [(t, v)]) (⟨next, .value v⟩ :: top) where
  proper := by
    have hproper := h.proper
    rw [hcells] at hproper
    rw [List.cons_append, hcells]
    exact hproper.shift haction hlexed.1
  inner := by
    refine List.forall_mem_cons.mpr ⟨?_, h.inner⟩
    exact State.inner_of_entry (State.entry_of_shift haction) ht hlexed.2.2
  covers := by
    refine h.covers.cons ?_
    rw [State.entry_of_shift haction]
    exact .token hlexed

theorem Inside.evaluates (h : Inside us w top) (heof : t ≠ .eof) {cells' : List Cell}
    (hresume : resume t v (top ++ base us) = .moved cells')
    (hr : Evaluates m (top ++ base us) (.ok (t, v) :: rest) r) :
    Raises m r ∨ Evaluates m cells' rest r ∨
      ∃ top' cell cells next, Inside us w top' ∧ (top' = [] → top = []) ∧
        top' ++ base us = cell :: cells ∧ action cell.state t = .shift next ∧
        Evaluates m (⟨next, .value v⟩ :: (top' ++ base us)) rest r := by
  have hsettles : ∀ verdict, Settles m t v (top ++ base us) verdict →
      verdict ≠ .refused ∧ Onward m us w top t v verdict ∨ verdict = .moved cells' := by
    intro verdict hverdict
    cases hverdict with
    | decided hne hdecides => exact .inl ⟨hne, h.decides hdecides heof⟩
    | resumed => exact .inr hresume
  cases hr with
  | refused hs =>
    rcases hsettles _ hs with ⟨hne, -⟩ | hverdict
    · exact absurd rfl hne
    · cases hverdict
  | accepted hs => rcases hsettles _ hs with ⟨-, honward⟩ | hverdict <;> contradiction
  | broke hs => exact .inl hs.raises
  | moved hs hrest =>
    rcases hsettles _ hs with ⟨-, honward⟩ | hverdict
    · cases honward with
      | shifted hinside hne hcells haction =>
        exact .inr (.inr ⟨_, _, _, _, hinside, hne, hcells, haction, hrest⟩)
    · cases hverdict
      exact .inr (.inl hrest)

theorem Inside.evaluates_token (h : Inside us w top) (ht : t ≠ .semicolon) (hlexed : Lexed (t, v))
    (hr : Evaluates m (top ++ base us) (.ok (t, v) :: rest) r) :
    Raises m r ∨ Evaluates m (skipping (base us)) rest r ∨
      ∃ top', top' ≠ [] ∧ Inside us (w ++ [(t, v)]) top' ∧
        Evaluates m (top' ++ base us) rest r := by
  have hresume : resume t v (top ++ base us) = .moved (skipping (base us)) :=
    resume_of_handler (handler_inside h.inner) ht hlexed.2.1
  rcases h.evaluates hlexed.2.1 hresume hr with hraises | hskip | hshift
  · exact .inl hraises
  · exact .inr (.inl hskip)
  · obtain ⟨top', cell, cells, next, hinside, -, hcells, haction, hrest⟩ := hshift
    exact .inr (.inr ⟨_, List.cons_ne_nil _ _, hinside.shift hcells haction hlexed ht, hrest⟩)

theorem Inside.evaluates_semicolon (h : Inside us w top) (hw : ∀ tv ∈ w, tv.1 ≠ .semicolon)
    (htop : top ≠ []) (hr : Evaluates m (top ++ base us) (.ok (.semicolon, v) :: rest) r) :
    Raises m r ∨ Evaluates m (⟨.skipped, .value v⟩ :: skipping (base us)) rest r ∨
      ∃ tree : Tree .expr, tree.yield = w := by
  have hresume : resume .semicolon v (top ++ base us) =
      .moved (⟨.skipped, .value v⟩ :: skipping (base us)) :=
    resume_semicolon (handler_inside h.inner)
  rcases h.evaluates (t := .semicolon) nofun hresume hr with hraises | hskip | hshift
  · exact .inl hraises
  · exact .inr (.inl hskip)
  · obtain ⟨top', cell, cells, next, hinside, hne, hcells, haction, -⟩ := hshift
    exact .inr (.inr (hinside.closed hw (fun hnil => htop (hne hnil)) hcells haction))

theorem action_inner_eof {q : State} (h : q.inner = true) : action q .eof = .error := by
  cases q <;> first | rfl | cases h

theorem Inside.evaluates_eof (h : Inside us w top) (htop : top ≠ [])
    (hr : Evaluates m (top ++ base us) (.ok (.eof, v) :: rest) r) : r = .error (.rejected []) := by
  cases top with
  | nil => exact absurd rfl htop
  | cons first top => exact hr.of_eof_error (action_inner_eof (h.inner first List.mem_cons_self))

theorem evaluates_skipping (ht : t ≠ .semicolon) (heof : t ≠ .eof)
    (hr : Evaluates m (skipping (base us)) (.ok (t, v) :: rest) r) :
    Evaluates m (skipping (base us)) rest r := by
  have hdecides : Decides m t v (skipping (base us)) .refused :=
    .refuse (show action .skipping t = .error from if_neg ht)
  have hsettles := Settles.resumed hdecides
  rw [resume_of_handler handler_skipping ht heof] at hsettles
  exact hr.of_moved hsettles

theorem evaluates_skipping_semicolon
    (hr : Evaluates m (skipping (base us)) (.ok (.semicolon, v) :: rest) r) :
    Evaluates m (⟨.skipped, .value v⟩ :: skipping (base us)) rest r :=
  hr.of_moved (.decided nofun (.shift rfl))

theorem evaluates_skipping_eof
    (hr : Evaluates m (skipping (base us)) (.ok (.eof, v) :: rest) r) :
    r = .error (.rejected []) := hr.of_eof_error rfl

theorem evaluates_skipping_word {u : Word} (hu : ∀ tv ∈ u, Lexed tv ∧ tv.1 ≠ .semicolon)
    (hr : Evaluates m (skipping (base us)) (u.map .ok ++ rest) r) :
    Evaluates m (skipping (base us)) rest r := by
  induction u with
  | nil => exact hr
  | cons tv u ih =>
    obtain ⟨⟨hlexed, ht⟩, htail⟩ := List.forall_mem_cons.mp hu
    exact ih htail (evaluates_skipping ht hlexed.2.1 hr)

theorem Inside.evaluates_word {u : Word} (h : Inside us w top)
    (hu : ∀ tv ∈ u, Lexed tv ∧ tv.1 ≠ .semicolon) (hne : top = [] → u ≠ [])
    (hr : Evaluates m (top ++ base us) (u.map .ok ++ rest) r) :
    Raises m r ∨ Evaluates m (skipping (base us)) rest r ∨
      ∃ top', top' ≠ [] ∧ Inside us (w ++ u) top' ∧ Evaluates m (top' ++ base us) rest r := by
  induction u generalizing w top with
  | nil =>
    rw [List.append_nil]
    exact .inr (.inr ⟨top, fun htop => hne htop rfl, h, hr⟩)
  | cons tv u ih =>
    obtain ⟨⟨hlexed, ht⟩, htail⟩ := List.forall_mem_cons.mp hu
    rcases h.evaluates_token ht hlexed hr with hraises | hskip | ⟨top', htop, hinside, hrest⟩
    · exact .inl hraises
    · exact .inr (.inl (evaluates_skipping_word htail hskip))
    · rw [List.append_cons]
      exact ih hinside htail (fun hnil => absurd hnil htop) hrest

end Steps

end ShiftReduce.Calculator
