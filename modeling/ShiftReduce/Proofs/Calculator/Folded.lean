import ShiftReduce.Proofs.Calculator.Earlier
import ShiftReduce.Proofs.Calculator.Safe
import ShiftReduce.Proofs.Calculator.Trace

namespace ShiftReduce.Calculator

open Engine (Follows)

def statements (frames : List (Frame State Value)) : List Value :=
  match (slots frames).find? fun slot => slot.state = .statements with
  | some slot => slot.items
  | none => []

/-- A statement is complete once the state is on top: it is left to reductions alone. -/
def State.complete : State → Bool
  | .emptyStatement | .closedStatement | .skipped | .statement => true
  | _ => false

def Completed (cells : List Cell) : Prop := ∃ cell ∈ cells.head?, cell.state.complete = true

@[simp] theorem completed_cons {cell : Cell} {cells : List Cell} :
    Completed (cell :: cells) ↔ cell.state.complete = true := by
  simp [Completed]

theorem State.not_complete_of_shift {q next : State} {t : Terminal}
    (h : action q t = .shift next) : q.complete = false := by
  have htable : ∀ q ∈ State.all, q.complete = true → ∀ t ∈ Terminal.all, ∀ next ∈ State.all,
      action q t ≠ .shift next := by decide +kernel
  by_contra hcomplete
  exact htable q q.mem_all (by simpa using hcomplete) t t.mem_all next next.mem_all h

section Finishing

variable {σ : Type} {actions : Actions σ} {config : Config Terminal} {token : Terminal}
  {s : Session σ} {us us' : List Value} {cells : List Cell}

inductive Finishes (actions : Actions σ) (config : Config Terminal) (token : Terminal)
    (s : Session σ) : List Cell → Value → Prop
  | reduced {v cells} : Finishes actions config token s (⟨.statement, .value v⟩ :: cells) v
  | reduces {cell cells p work below v u} : action cell.state token = .reduce p →
      Reduces p (cell :: cells) work .statement below →
      Works actions work (s.reducing (engine actions config) token p p.rule).client.user
        (.value v) u →
      Finishes actions config token s (cell :: cells) v

theorem Reduces.mem_of_statement {p : Production} {work : Work} {below : List Cell}
    (h : Reduces p cells work .statement below) :
    p ∈ [Production.evaluated, .skipped, .empty] := by
  have htable : ∀ p ∈ Production.all, State.statement.entry = .nonterminal p.rule.lhs →
      p ∈ [Production.evaluated, .skipped, .empty] := by decide +kernel
  exact htable p p.mem_all h.entry_eq

theorem Finishes.of_entered {q : State} {c : Content} {n : Nonterminal} {v : Value}
    (h : Finishes actions config token s (⟨q, c⟩ :: cells) v) (hq : q.entry = .nonterminal n) :
    q = .statement ∧ c = .value v := by
  cases h with
  | reduced => exact ⟨rfl, rfl⟩
  | @reduces _ _ p _ _ _ _ haction hreduces =>
    obtain ⟨-, rfl⟩ := home_of_reduce haction
    have hp := hreduces.mem_of_statement
    simp only [List.mem_cons, List.not_mem_nil, or_false] at hp
    rcases hp with rfl | rfl | rfl <;> cases hq

/-- The values are those before, with that of the statement on top if one is complete. -/
inductive Extends (actions : Actions σ) (config : Config Terminal) (token : Terminal)
    (s : Session σ) (cells : List Cell) (us : List Value) : List Value → Prop
  | same : ¬ Completed cells → Extends actions config token s cells us us
  | one {v} : Finishes actions config token s cells v →
      Extends actions config token s cells us (us ++ [v])

theorem Extends.isPrefix (h : Extends actions config token s cells us us') : us <+: us' := by
  cases h with
  | same => exact List.prefix_rfl
  | one => exact List.prefix_append _ _

theorem Extends.of_ground {vs : List Value}
    (h : Extends actions config token s (ground vs) us us') : us' = us := by
  cases h with
  | same => rfl
  | one hv => cases (hv.of_entered rfl).1

end Finishing

section Cells

def Over (us : List Value) (cells : List Cell) : Prop :=
  ∃ top, (∀ cell ∈ top, cell.state.above = true) ∧ cells = top ++ ground us

inductive Holds : List Value → List Cell → Prop
  | start : Holds [] [⟨.start, .value .nothing⟩]
  | above {us : List Value} {cells : List Cell} : Over us cells → Holds us cells

variable {us : List Value} {cells : List Cell} {cell : Cell}

theorem over_ground (us : List Value) : Over us (ground us) := ⟨[], nofun, rfl⟩

theorem Over.cons {next : State} (h : Over us cells) (hnext : next.above = true) (c : Content) :
    Over us (⟨next, c⟩ :: cells) := by
  obtain ⟨top, htop, rfl⟩ := h
  exact ⟨⟨next, c⟩ :: top, List.forall_mem_cons.mpr ⟨hnext, htop⟩, rfl⟩

theorem Over.head_ne_accepting (h : Over us (cell :: cells)) : cell.state ≠ .accepting := by
  obtain ⟨top, htop, hcells⟩ := h
  cases top with
  | nil =>
    cases hcells
    exact nofun
  | cons first top =>
    obtain ⟨rfl, -⟩ := List.cons.inj hcells
    have habove := htop cell List.mem_cons_self
    intro hstate
    rw [hstate] at habove
    cases habove

theorem Over.handler_eq (h : Over us cells) : handler cells = ground us := by
  obtain ⟨top, htop, rfl⟩ := h
  induction top with
  | nil => rfl
  | cons cell top ih =>
    obtain ⟨hcell, htop⟩ := List.forall_mem_cons.mp htop
    have hhandles : handlesError cell.state = false := by
      generalize cell.state = q at hcell
      cases q <;> first | rfl | cases hcell
    rw [List.cons_append, handler, List.dropWhile_cons_of_pos (by rw [hhandles]; rfl)]
    exact ih htop

theorem Holds.over_of_handler (h : Holds us cells) (hhandler : handler cells ≠ []) :
    Over us cells := by
  cases h with
  | start => exact absurd rfl hhandler
  | above h => exact h

theorem Holds.shift {t : Terminal} {next : State} (h : Holds us (cell :: cells))
    (haction : action cell.state t = .shift next) (c : Content) :
    Over us (⟨next, c⟩ :: cell :: cells) := by
  generalize hcells : cell :: cells = all at h
  cases h with
  | start =>
    cases hcells
    cases t <;> cases haction
  | above h => exact h.cons (State.above_of_shift haction) c

theorem Holds.head_ne_accepting (h : Holds us (cell :: cells)) : cell.state ≠ .accepting := by
  generalize hcells : cell :: cells = all at h
  cases h with
  | start =>
    cases hcells
    exact nofun
  | above h => exact (hcells ▸ h).head_ne_accepting

theorem Holds.statements_eq (h : Holds us cells) {frames : List (Frame State Value)}
    (hs : Shows frames cells) : statements frames = us := by
  rw [statements, hs.slots_eq]
  cases h with
  | start => rfl
  | above h =>
    obtain ⟨top, htop, rfl⟩ := h
    have hnone : (top.map Cell.slot).find? (fun slot => slot.state = .statements) = none := by
      rw [List.find?_eq_none]
      intro slot hmem hstate
      obtain ⟨cell, hcell, rfl⟩ := List.mem_map.mp hmem
      have habove := htop cell hcell
      rw [show cell.state = .statements from of_decide_eq_true hstate] at habove
      cases habove
    rw [List.map_append, List.find?_append, hnone]
    rfl

inductive Grows (cell : Cell) (us : List Value) : Work → State → List Cell → Prop
  | above {work : Work} {next : State} {below : List Cell} : next.above = true → Over us below →
      next.complete = cell.state.complete → Grows cell us work next below
  | begun : cell.state = .start → us = [] →
      Grows cell us (.done (.list [])) .statements [⟨.start, .value .nothing⟩]
  | statement {v : Value} : cell = ⟨.statement, .value v⟩ →
      Grows cell us (.done (.list (us ++ [v]))) .statements [⟨.start, .value .nothing⟩]
  | program : cell.state = .statements →
      Grows cell us (.perform (.program (us.filterMap Value.asStatement?))) .accepting
        [⟨.start, .value .nothing⟩]

theorem Reduces.complete_eq {p : Production} {work : Work} {next : State} {below : List Cell}
    (h : Reduces p cells work next below) (hnext : next.above = true) :
    next.complete = p.home.complete := by
  have htable : ∀ p ∈ Production.all, ∀ r ∈ State.all, ∀ next ∈ goto r p.rule.lhs,
      next.above = true → next.complete = p.home.complete := by decide +kernel
  obtain ⟨-, hasks, hgoto⟩ := h
  exact htable p p.mem_all _ (State.mem_all _) next hgoto hnext

theorem Holds.reduces {t : Terminal} {p : Production} {work : Work} {next : State}
    {below : List Cell} (h : Holds us (cell :: cells)) (haction : action cell.state t = .reduce p)
    (hreduces : Reduces p (cell :: cells) work next below) :
    Grows cell us work next below := by
  have hhome := (home_of_reduce haction).2
  generalize hcells : cell :: cells = all at h
  cases h with
  | start =>
    cases hcells
    obtain rfl : p = .noStatement := by
      cases p <;> first | rfl | cases hhome
    obtain ⟨rfl, rfl, rfl⟩ := Reduces.start.unique hreduces
    exact .begun rfl rfl
  | above h =>
    obtain ⟨top, htop, rfl⟩ := h
    rw [hcells] at hreduces
    cases hreduces.rests htop with
    | above hnext hrest =>
      exact .above hnext ⟨_, hrest, rfl⟩ (hhome ▸ hreduces.complete_eq hnext)
    | statement q v hp hone =>
      rw [hone] at hcells
      obtain ⟨rfl, -⟩ := List.cons.inj hcells
      rw [hp] at hhome
      exact .statement (congrArg (Cell.mk · (.value v)) hhome)
    | program hp => exact .program (hhome.trans (congrArg Production.home hp))

end Cells

section Drive

variable {σ : Type} {actions : Actions σ} {config : Config Terminal} {token : Terminal}
  {value : Value} {gives gives' : List Value → Prop} {us : List Value} {cells : List Cell}
  {r : EStateM.Result (Halt Fault) (Session σ) Unit}

def Actions.Total (actions : Actions σ) : Prop :=
  ∀ call u, call.Clean → ∃ v u', actions.perform call u = .ok v u'

inductive Drove (actions : Actions σ) (token : Terminal) (gives : List Value → Prop) :
    EStateM.Result (Halt Fault) (Session σ) Unit → Prop
  | refused {t : Session σ} : t.failed = true → t.accepted = false →
      Drove actions token gives (.ok () t)
  | accepted {t : Session σ} {us : List Value} : token = .eof → t.failed = false →
      t.accepted = true → gives us → (actions.program = pure →
        t.result = some (.program (us.filterMap Value.asStatement?))) →
      Drove actions token gives (.ok () t)
  | moved {t : Session σ} {us : List Value} {cells : List Cell} : token ≠ .eof →
      t.failed = false → t.accepted = false → gives us → Proper cells →
      Over us cells → Shows t.stack.frames cells → Drove actions token gives (.ok () t)
  | raised {f} {t : Session σ} : ¬ actions.Total → t.accepted = false →
      Drove actions token gives (.error (.raised f) t)

theorem Drove.mono (h : Drove actions token gives r) (hgives : ∀ us, gives us → gives' us) :
    Drove actions token gives' r := by
  cases h with
  | refused hfailed haccepted => exact .refused hfailed haccepted
  | accepted htoken hfailed haccepted hus hresult =>
    exact .accepted htoken hfailed haccepted (hgives _ hus) hresult
  | moved htoken hfailed haccepted hus hproper hover hshows =>
    exact .moved htoken hfailed haccepted (hgives _ hus) hproper hover hshows
  | raised htotal haccepted => exact .raised htotal haccepted

theorem Drives.of_accepting {s : Session σ} {v : Value}
    (h : Drives actions config token value s (⟨.accepting, .value v⟩ :: cells) r)
    (hfailed : s.failed = false) (haccepted : s.accepted = false) (hus : gives us)
    (hv : actions.program = pure → v = .program (us.filterMap Value.asStatement?)) :
    Drove actions token gives r := by
  have haction : action .accepting token = if token = .eof then .accept else .error := rfl
  cases h with
  | refused _ ht => exact .refused rfl (ht.accepted_eq.trans haccepted)
  | crowded _ ht => exact .refused rfl (ht.accepted_eq.trans haccepted)
  | accepted haction' ht =>
    refine .accepted (eq_of_accept haction').2 (ht.failed_eq.trans hfailed) rfl hus ?_
    intro hpure
    rw [← hv hpure]
    rfl
  | shifted haction' | reduced haction' | overgrown haction' | broke haction' =>
    rw [haction] at haction'
    split at haction' <;> cases haction'

theorem Actions.perform_program {results : List (Option Int)} {v : Value} {u u' : σ}
    (hpure : actions.program = pure) (h : actions.perform (.program results) u = .ok v u') :
    v = .program results := by
  rw [Actions.perform, hpure, map_pure] at h
  cases h
  rfl

theorem Drives.drove {s : Session σ} (h : Drives actions config token value s cells r)
    (hshaped : Shaped token value) (hproper : Proper cells) (hfailed : s.failed = false)
    (haccepted : s.accepted = false) (hholds : Holds us cells) :
    Drove actions token (Extends actions config token s cells us) r := by
  -- A reduction either stays above the statements, or what it makes of them is driven on.
  induction h generalizing us with
  | refused haction ht => exact .refused rfl (ht.accepted_eq.trans haccepted)
  | crowded _ ht => exact .refused rfl (ht.accepted_eq.trans haccepted)
  | overgrown _ _ _ _ hw => exact .refused rfl (hw.accepted_eq.trans haccepted)
  | accepted haction => exact absurd (eq_of_accept haction).1 hholds.head_ne_accepting
  | shifted haction ht hshows =>
    exact .moved (ne_eof_of_shift haction) (ht.failed_eq.trans hfailed)
      (ht.accepted_eq.trans haccepted) (.same (by simp [State.not_complete_of_shift haction]))
      (hproper.shift haction hshaped) (hholds.shift haction _) hshows
  | broke haction hreduces hcall =>
    obtain ⟨hclean, -⟩ := hproper.reduces_clean haction hreduces
    refine .raised (fun htotal => ?_) haccepted
    obtain ⟨v, u', hanswer⟩ := htotal _ _ hclean
    cases hcall.symm.trans hanswer
  | @reduced s w cell cells p work next below c u r haction hreduces hworks hw hshows hdrives ih =>
    obtain ⟨-, hyields⟩ := hproper.reduces_clean haction hreduces
    have hproper' := hyields c hworks.yields
    have hfailed' : w.failed = false := hw.failed_eq.trans hfailed
    have haccepted' : w.accepted = false := hw.accepted_eq.trans haccepted
    cases hholds.reduces haction hreduces with
    | above hnext hbelow hcomplete =>
      have hdrove := ih hproper' hfailed' haccepted' (.above (hbelow.cons hnext c))
      refine hdrove.mono fun us' hus' => ?_
      cases hus' with
      | same hnone =>
        rw [completed_cons, hcomplete] at hnone
        exact .same (mt completed_cons.mp hnone)
      | one hv =>
        obtain ⟨rfl, rfl⟩ := hv.of_entered hreduces.entry_eq
        exact .one (.reduces haction hreduces hworks)
    | begun hstart hus =>
      cases hworks
      have hdrove := ih hproper' hfailed' haccepted' (.above (over_ground []))
      refine hdrove.mono fun us' hus' => ?_
      rw [hus, hus'.of_ground]
      exact .same (by simp [hstart, State.complete])
    | @statement v hcell =>
      cases hworks
      have hdrove := ih hproper' hfailed' haccepted' (.above (over_ground (us ++ [v])))
      refine hdrove.mono fun us' hus' => ?_
      rw [hus'.of_ground, hcell]
      exact .one .reduced
    | program hstate =>
      cases hworks with
      | perform hcall =>
        have hnone : ¬ Completed (cell :: cells) := by simp [hstate, State.complete]
        exact hdrives.of_accepting hfailed' haccepted' (.same hnone) fun hpure =>
          Actions.perform_program hpure hcall

theorem drive_drove {s : Session σ} (hebnf : config.ebnf = true) (hshaped : Shaped token value)
    (hproper : Proper cells) (hholds : Holds us cells) (hshows : Shows s.stack.frames cells)
    (hfailed : s.failed = false) (haccepted : s.accepted = false) :
    Drove actions token (Extends actions config token s cells us)
      ((engine actions config).drive token value s) := by
  have hdrives : Drives actions config token value s cells _ :=
    drive_course hebnf hfailed hproper hshows
  exact hdrives.drove hshaped hproper hfailed haccepted hholds

theorem Drives.of_error {s : Session σ} {cell : Cell}
    (h : Drives actions config token value s (cell :: cells) r)
    (haction : action cell.state token = .error) : ∃ t : Session σ, r = .ok () (t.fail true) := by
  cases h with
  | refused | crowded => exact ⟨_, rfl⟩
  | accepted haction' | shifted haction' | reduced haction' | overgrown haction' | broke haction' =>
    cases haction.symm.trans haction'

theorem Drives.of_shift {s : Session σ} {cell : Cell} {next : State}
    (h : Drives actions config token value s (cell :: cells) r)
    (haction : action cell.state token = .shift next) :
    ∃ t, Follows (engine actions config) s t ∧
      (r = .ok () t ∧ Shows t.stack.frames (⟨next, .value value⟩ :: cell :: cells) ∨
        r = .ok () (t.fail true) ∧ s.stack.capacity ≠ none) := by
  cases h with
  | shifted haction' ht hshows =>
    cases haction.symm.trans haction'
    exact ⟨_, ht, .inl ⟨rfl, hshows⟩⟩
  | crowded hcapacity ht => exact ⟨_, ht, .inr ⟨rfl, hcapacity⟩⟩
  | refused haction' | accepted haction' | reduced haction' | overgrown haction' | broke haction' =>
    cases haction.symm.trans haction'

end Drive

end ShiftReduce.Calculator
