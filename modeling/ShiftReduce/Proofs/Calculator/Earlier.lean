import ShiftReduce.Proofs.Calculator.Inside

namespace ShiftReduce.Calculator

def State.above : State → Bool
  | .start | .accepting | .statements => false
  | _ => true

variable {m : Arithmetic} {es : List Value} {t : Terminal} {v : Value} {cells cells' : List Cell}
  {verdict verdict' : Verdict}

/-- The second cells are the first with the values of earlier statements. -/
def Earlier (es : List Value) (cells cells' : List Cell) : Prop :=
  ∃ top us, (∀ cell ∈ top, cell.state.above = true) ∧ cells = top ++ ground us ∧
    cells' = top ++ ground (es ++ us)

inductive Carries (es : List Value) : Verdict → Verdict → Prop
  | refused : Carries es .refused .refused
  | accepted (results : List (Option Int)) : Carries es (.accepted (.program results))
      (.accepted (.program (es.filterMap Value.asStatement? ++ results)))
  | moved {c c' : List Cell} : Earlier es c c' → Carries es (.moved c) (.moved c')
  | broke (e : Error) : Carries es (.broke e) (.broke e)

theorem Carries.ne_refused (h : Carries es verdict verdict') (hne : verdict' ≠ .refused) :
    verdict ≠ .refused := by
  rintro rfl
  cases h
  exact hne rfl

namespace Earlier

theorem cons {next : State} (h : Earlier es cells cells') (hnext : next.above = true)
    (c : Content) : Earlier es (⟨next, c⟩ :: cells) (⟨next, c⟩ :: cells') := by
  obtain ⟨top, us, htop, rfl, rfl⟩ := h
  exact ⟨⟨next, c⟩ :: top, us, List.forall_mem_cons.mpr ⟨hnext, htop⟩, rfl, rfl⟩

theorem head {cell' : Cell} {rest' : List Cell} (h : Earlier es cells (cell' :: rest')) :
    ∃ cell rest, cells = cell :: rest ∧ cell.state = cell'.state ∧ cell.state ≠ .start ∧
      cell.state ≠ .accepting := by
  obtain ⟨top, us, htop, rfl, hcells⟩ := h
  cases top with
  | nil =>
    cases hcells
    exact ⟨_, _, rfl, rfl, nofun, nofun⟩
  | cons cell top =>
    obtain ⟨rfl, -⟩ := List.cons.inj hcells
    have habove := htop cell' List.mem_cons_self
    refine ⟨cell', _, rfl, rfl, ?_, ?_⟩ <;> intro hstate <;> rw [hstate] at habove <;> cases habove

end Earlier

theorem State.above_of_shift {q next : State} (h : action q t = .shift next) :
    next.above = true := by
  have hentry := State.entry_of_shift h
  revert hentry
  cases next <;> simp [State.above, State.entry]

theorem State.above_of_goto {p : Production} {r next : State}
    (hgoto : goto r p.rule.lhs = some next) (hp : .nonterminal .statements ∉ p.rhs)
    (hr : r ≠ .start) : next.above = true := by
  have htable : ∀ p ∈ Production.all, .nonterminal .statements ∉ p.rhs → ∀ r ∈ State.all,
      r ≠ .start → ∀ next ∈ goto r p.rule.lhs, next.above = true := by decide +kernel
  exact htable p p.mem_all hp r r.mem_all hr next hgoto

theorem State.entry_ne_of_above {q : State} (h : q.above = true) :
    q.entry ≠ .nonterminal .statements := by
  revert h
  cases q <;> simp [State.above, State.entry]

/-- How a reduction goes above the statements `us`: it would go so above any others. -/
inductive Rests (p : Production) (top : List Cell) (us : List Value) :
    Work → State → List Cell → Prop
  | above {work next rest} : next.above = true → (∀ cell ∈ rest, cell.state.above = true) →
      (∀ us', Reduces p (top ++ ground us') work next (rest ++ ground us')) →
      Rests p top us work next (rest ++ ground us)
  | statement (q : State) (v : Value) : p = .nextStatement → top = [⟨q, .value v⟩] →
      (∀ us', Reduces p (top ++ ground us') (.done (.list (us' ++ [v]))) .statements
        [⟨.start, .value .nothing⟩]) →
      Rests p top us (.done (.list (us ++ [v]))) .statements [⟨.start, .value .nothing⟩]
  | program : p = .program →
      (∀ us', Reduces p (top ++ ground us')
        (.perform (.program (us'.filterMap Value.asStatement?))) .accepting
        [⟨.start, .value .nothing⟩]) →
      Rests p top us (.perform (.program (us.filterMap Value.asStatement?))) .accepting
        [⟨.start, .value .nothing⟩]

theorem Rests.of_statements {p : Production} {work : Work} {next : State} {top : List Cell}
    {us : List Value}
    (hrhs : .nonterminal .statements :: (top.map fun c => c.state.entry).reverse = p.rhs)
    (hasks : Asks p (.list us :: top.reverse.map Cell.content) work)
    (hgoto : goto .start p.rule.lhs = some next) :
    Rests p top us work next [⟨.start, .value .nothing⟩] := by
  cases p with
  | program =>
    obtain rfl : top = [] := by simpa [Production.rhs] using hrhs
    cases hasks
    cases hgoto
    exact .program rfl fun us' => @Reduces.intro .program [_] _ [] _ _ rfl (.program us') rfl
  | nextStatement =>
    obtain ⟨⟨q, c⟩, rfl⟩ : ∃ cell, top = [cell] := by
      have hlength := congrArg List.length hrhs
      exact List.length_eq_one_iff.mp (by simpa [Production.rhs] using hlength)
    have hasks : Asks .nextStatement [.list us, c] work := hasks
    cases hasks with
    | nextStatement _ v =>
      cases hgoto
      exact .statement q v rfl rfl fun us' => @Reduces.intro .nextStatement [_, _] _ [] _ _ hrhs
        (.nextStatement us' v) rfl
  | _ => cases hrhs

theorem Reduces.rests {p : Production} {work : Work} {next : State} {below top : List Cell}
    {us : List Value} (h : Reduces p (top ++ ground us) work next below)
    (htop : ∀ cell ∈ top, cell.state.above = true) : Rests p top us work next below := by
  generalize hall : top ++ ground us = cells at h
  obtain @⟨popped, r, below, _, _, hpopped, hasks, hgoto⟩ := h
  rcases popped_of_ground hall with ⟨rest, rfl, hbelow⟩ | ⟨rfl, rfl, rfl⟩
  · have hrhs : .nonterminal .statements ∉ p.rhs := by
      rw [← hpopped, List.mem_reverse, List.mem_map]
      rintro ⟨cell, hmem, hentry⟩
      exact State.entry_ne_of_above (htop cell (List.mem_append_left _ hmem)) hentry
    have hrest : ∀ cell ∈ rest, cell.state.above = true :=
      fun cell hmem => htop cell (List.mem_append_right _ hmem)
    -- What is left begins with the same state above any statements, and not with the start.
    have hhead : r.state ≠ .start ∧ ∀ us', ∃ c below', rest ++ ground us' = c :: below' ∧
        c.state = r.state := by
      cases rest with
      | nil =>
        cases hbelow
        exact ⟨nofun, fun us' => ⟨_, _, rfl, rfl⟩⟩
      | cons cell rest =>
        obtain ⟨rfl, -⟩ := List.cons.inj hbelow
        have hcell := hrest cell List.mem_cons_self
        refine ⟨fun hstart => ?_, fun us' => ⟨_, _, rfl, rfl⟩⟩
        rw [hstart] at hcell
        cases hcell
    rw [← hbelow]
    refine .above (State.above_of_goto hgoto hrhs hhead.1) hrest fun us' => ?_
    obtain ⟨c, below', hcells, hstate⟩ := hhead.2 us'
    rw [List.append_assoc, hcells]
    exact .intro hpopped hasks (hstate ▸ hgoto)
  · rw [List.map_append, List.reverse_append] at hpopped
    rw [List.reverse_append] at hasks
    exact .of_statements hpopped hasks hgoto

inductive Shares (es : List Value) (p : Production) (cells : List Cell) :
    Work → State → List Cell → Prop
  | above {work next below below'} : Reduces p cells work next below → next.above = true →
      Earlier es below below' → Shares es p cells work next below'
  | statement (us v) :
      Reduces p cells (.done (.list (us ++ [v]))) .statements [⟨.start, .value .nothing⟩] →
      Shares es p cells (.done (.list (es ++ us ++ [v]))) .statements [⟨.start, .value .nothing⟩]
  | program (us) :
      Reduces p cells (.perform (.program (us.filterMap Value.asStatement?))) .accepting
        [⟨.start, .value .nothing⟩] →
      Shares es p cells (.perform (.program ((es ++ us).filterMap Value.asStatement?))) .accepting
        [⟨.start, .value .nothing⟩]

theorem Reduces.shares {p : Production} {work : Work} {next : State} {below' : List Cell}
    (h : Reduces p cells' work next below') (hcells : Earlier es cells cells') :
    Shares es p cells work next below' := by
  obtain ⟨top, us, htop, rfl, rfl⟩ := hcells
  cases h.rests htop with
  | above hnext hrest hreduces => exact .above (hreduces us) hnext ⟨_, us, hrest, rfl, rfl⟩
  | statement _ v _ _ hreduces => exact .statement us v (hreduces us)
  | program _ hreduces => exact .program us (hreduces us)

theorem Decides.earlier (h : Decides m t v cells' verdict') (hcells : Earlier es cells cells') :
    ∃ verdict, Decides m t v cells verdict ∧ Carries es verdict verdict' := by
  induction h generalizing cells with
  | refuse haction =>
    obtain ⟨cell, rest, rfl, hstate, -⟩ := hcells.head
    rw [← hstate] at haction
    exact ⟨_, .refuse haction, .refused⟩
  | accept haction =>
    obtain ⟨cell, rest, rfl, hstate, -, haccepting⟩ := hcells.head
    rw [← hstate] at haction
    exact absurd (eq_of_accept haction).1 haccepting
  | shift haction =>
    obtain ⟨cell, rest, rfl, hstate, -⟩ := hcells.head
    rw [← hstate] at haction
    exact ⟨_, .shift haction, .moved (hcells.cons (State.above_of_shift haction) _)⟩
  | breaks haction hreduces hcontent =>
    obtain ⟨cell, rest, rfl, hstate, -⟩ := hcells.head
    rw [← hstate] at haction
    cases hreduces.shares hcells with
    | above hreduces' => exact ⟨_, .breaks haction hreduces' hcontent, .broke _⟩
    | statement | program => cases hcontent
  | @reduce cell' cells' p work next below' c verdict' haction hreduces hcontent hdecides ih =>
    obtain ⟨cell, rest, rfl, hstate, -⟩ := hcells.head
    rw [← hstate] at haction
    cases hreduces.shares hcells with
    | above hreduces' hnext hbelow =>
      obtain ⟨verdict, hverdict, hcarries⟩ := ih (hbelow.cons hnext c)
      exact ⟨verdict, .reduce haction hreduces' hcontent hverdict, hcarries⟩
    | statement us v hreduces' =>
      cases hcontent
      have hground : Earlier es (ground (us ++ [v])) (ground (es ++ us ++ [v])) :=
        ⟨[], us ++ [v], nofun, rfl, by rw [List.append_assoc]; rfl⟩
      obtain ⟨verdict, hverdict, hcarries⟩ := ih hground
      exact ⟨verdict, .reduce haction hreduces' rfl hverdict, hcarries⟩
    | program us hreduces' =>
      cases hcontent
      have haccepting : action .accepting t = if t = .eof then .accept else .error := rfl
      split at haccepting
      · obtain rfl := hdecides.of_accept haccepting
        refine ⟨_, .reduce haction hreduces' rfl (.accept haccepting), ?_⟩
        rw [List.filterMap_append]
        exact .accepted _
      · obtain rfl := hdecides.of_error haccepting
        exact ⟨_, .reduce haction hreduces' rfl (.refuse haccepting), .refused⟩

theorem handler_append_ground (top : List Cell) (us : List Value) :
    handler (top ++ ground us) = handler top ++ ground us := by
  induction top with
  | nil => rfl
  | cons cell top ih =>
    rw [handler, handler, List.cons_append, List.dropWhile_cons, List.dropWhile_cons]
    split
    · exact ih
    · rfl

theorem Earlier.handler (h : Earlier es cells cells') :
    Earlier es (handler cells) (handler cells') := by
  obtain ⟨top, us, htop, rfl, rfl⟩ := h
  rw [handler_append_ground, handler_append_ground]
  exact ⟨_, us, fun cell hmem => htop cell (List.dropWhile_subset _ hmem), rfl, rfl⟩

theorem Earlier.ne_nil (h : Earlier es cells cells') : cells ≠ [] ∧ cells' ≠ [] := by
  obtain ⟨top, us, -, rfl, rfl⟩ := h
  simp [ground]

theorem Earlier.resume (h : Earlier es cells cells') :
    Carries es (resume t v cells) (resume t v cells') := by
  rw [Calculator.resume, Calculator.resume, if_neg h.handler.ne_nil.1, if_neg h.handler.ne_nil.2]
  have hskipping : Earlier es (skipping (Calculator.handler cells))
      (skipping (Calculator.handler cells')) := h.handler.cons rfl _
  split
  · exact .moved (hskipping.cons rfl _)
  · split
    · exact .refused
    · exact .moved hskipping

theorem Settles.earlier (h : Settles m t v cells' verdict') (hcells : Earlier es cells cells') :
    ∃ verdict, Settles m t v cells verdict ∧ Carries es verdict verdict' := by
  cases h with
  | decided hne hdecides =>
    obtain ⟨verdict, hverdict, hcarries⟩ := hdecides.earlier hcells
    exact ⟨verdict, .decided (hcarries.ne_refused hne) hverdict, hcarries⟩
  | resumed hdecides =>
    obtain ⟨verdict, hverdict, hcarries⟩ := hdecides.earlier hcells
    cases hcarries
    exact ⟨_, .resumed hverdict, hcells.resume⟩

theorem Evaluates.earlier {input : List Item} {r' : Except Error (List (Option Int))}
    (h : Evaluates m cells' input r') (hcells : Earlier es cells cells') :
    ∃ r, Evaluates m cells input r ∧ r' = (es.filterMap Value.asStatement? ++ ·) <$> r := by
  -- The relation of the two stacks survives every token, and decides the verdict of both.
  induction h generalizing cells with
  | ended => exact ⟨_, .ended, rfl⟩
  | malformed => exact ⟨_, .malformed, rfl⟩
  | refused hsettles =>
    obtain ⟨verdict, hverdict, hcarries⟩ := hsettles.earlier hcells
    cases hcarries
    exact ⟨_, .refused hverdict, rfl⟩
  | accepted hsettles =>
    obtain ⟨verdict, hverdict, hcarries⟩ := hsettles.earlier hcells
    cases hcarries
    exact ⟨_, .accepted hverdict, rfl⟩
  | broke hsettles =>
    obtain ⟨verdict, hverdict, hcarries⟩ := hsettles.earlier hcells
    cases hcarries
    exact ⟨_, .broke hverdict, rfl⟩
  | moved hsettles _ ih =>
    obtain ⟨verdict, hverdict, hcarries⟩ := hsettles.earlier hcells
    cases hcarries with
    | moved hmoved =>
      obtain ⟨r, hr, hresult⟩ := ih hmoved
      exact ⟨r, .moved hverdict hr, hresult⟩

theorem base_earlier (us : List (Option (Option Int))) :
    Earlier (us.map statementValue) (base []) (base us) :=
  ⟨[], [], nofun, rfl, by rw [List.append_nil]; rfl⟩

theorem Evaluates.of_base {us : List (Option (Option Int))} {input : List Item}
    {r' : Except Error (List (Option Int))} (h : Evaluates m (base us) input r') :
    ∃ r, Evaluates m (base []) input r ∧ r' = (us.filterMap id ++ ·) <$> r := by
  have hearlier := h.earlier (base_earlier us)
  rwa [filterMap_statementValue] at hearlier

end ShiftReduce.Calculator
