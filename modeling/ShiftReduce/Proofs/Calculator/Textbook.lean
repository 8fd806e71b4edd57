import ShiftReduce.Proofs.Calculator.Machine
import ShiftReduce.Proofs.Calculator.Reduce

/-!
A textbook automaton for the calculator, with panic-mode recovery. Every production is an ordinary
rule: its right-hand side is popped, the left-hand side is entered, and the value of a sequence is a
list. A run has a trace: the stack and the token before each decision, the decision, and the steps
of recovery. The automaton is deterministic.
-/

namespace ShiftReduce.Calculator

structure Slot where
  state : State
  value : Value
  items : List Value
  deriving DecidableEq

def Cell.slot (cell : Cell) : Slot := ⟨cell.state, cell.content.head, cell.content.items⟩

inductive Mark : Type
  | faces (stack : List Slot) (t : Terminal)
  | takes (decision : Action State Production)
  | resumes (q : State)
  | givesUp
  | refuses
  | offers (t : Terminal)
  | discards (t : Terminal)
  | keepsEnd
  deriving DecidableEq

namespace Textbook

variable {σ : Type}

def decision (cells : List Cell) (t : Terminal) (d : Action State Production) : List Mark :=
  [.faces (cells.map Cell.slot) t, .takes d]

section Automaton

variable (actions : Actions σ)

/-- How a token is read from cells: reductions first, then a shift, acceptance or an error. The
user is the one that the operations work for. -/
inductive Reads (t : Terminal) (v : Value) : List Cell → σ → List Mark → Verdict → σ → Prop
  | refuse {cell cells u} : action cell.state t = .error →
      Reads t v (cell :: cells) u (decision (cell :: cells) t .error) .refused u
  | accept {cell cells u} : action cell.state t = .accept →
      Reads t v (cell :: cells) u (decision (cell :: cells) t .accept)
        (.accepted cell.content.head) u
  | shift {cell cells next u} : action cell.state t = .shift next →
      Reads t v (cell :: cells) u (decision (cell :: cells) t (.shift next))
        (.moved (⟨next, .value v⟩ :: cell :: cells)) u
  | reduce {cell cells p work next below c u u' u'' marks verdict} :
      action cell.state t = .reduce p → Reduces p (cell :: cells) work next below →
      Works actions work u c u' → Reads t v (⟨next, c⟩ :: below) u' marks verdict u'' →
      Reads t v (cell :: cells) u (decision (cell :: cells) t (.reduce p) ++ marks) verdict u''
  | breaks {cell cells p call next below e u u'} :
      action cell.state t = .reduce p → Reduces p (cell :: cells) (.perform call) next below →
      actions.perform call u = .error e u' →
      Reads t v (cell :: cells) u (decision (cell :: cells) t (.reduce p)) (.broke e) u'

variable (config : Config Terminal)

/-- A token is offered once more. It is discarded if it does not fit, unless it is the end. -/
inductive Offers (t : Terminal) (v : Value) (cells : List Cell) (u : σ) :
    List Mark → Verdict → σ → Prop
  | read {marks verdict u'} : verdict ≠ .refused → Reads actions t v cells u marks verdict u' →
      Offers t v cells u (.offers t :: marks) verdict u'
  | discarded {marks u'} : t ≠ config.endToken → Reads actions t v cells u marks .refused u' →
      Offers t v cells u (.offers t :: marks ++ [.discards t]) (.moved cells) u'
  | kept {marks u'} : t = config.endToken → Reads actions t v cells u marks .refused u' →
      Offers t v cells u (.offers t :: marks ++ [.keepsEnd]) .refused u'

/-- Recovery pops cells until a state handles errors, and shifts the recovery token there. -/
inductive Recovers (recovery t : Terminal) (v : Value) (cells : List Cell) (u : σ) :
    List Mark → Verdict → σ → Prop
  | hopeless : handler cells = [] → Recovers recovery t v cells u [.givesUp] .refused u
  | refused {cell below marks u'} : handler cells = cell :: below →
      Reads actions recovery .nothing (cell :: below) u marks .refused u' →
      Recovers recovery t v cells u (.resumes cell.state :: marks ++ [.refuses]) .refused u'
  | resumed {cell below cells' marks marks' verdict u' u''} : handler cells = cell :: below →
      Reads actions recovery .nothing (cell :: below) u marks (.moved cells') u' →
      Offers actions config t v cells' u' marks' verdict u'' →
      Recovers recovery t v cells u (.resumes cell.state :: marks ++ marks') verdict u''

/-- What becomes of a token. One that is refused finds the cells as they were before it. -/
inductive Takes (t : Terminal) (v : Value) (cells : List Cell) (u : σ) :
    List Mark → Verdict → σ → Prop
  | read {marks verdict u'} : verdict ≠ .refused → Reads actions t v cells u marks verdict u' →
      Takes t v cells u marks verdict u'
  | refused {marks u'} : config.recovery = none → Reads actions t v cells u marks .refused u' →
      Takes t v cells u marks .refused u'
  | recovered {recovery marks marks' verdict u' u''} : config.recovery = some recovery →
      Reads actions t v cells u marks .refused u' →
      Recovers actions config recovery t v cells u' marks' verdict u'' →
      Takes t v cells u (marks ++ marks') verdict u''

inductive Runs : List Cell → σ → Word → List Mark → Verdict → σ → Prop
  | done {cells u} : Runs cells u [] [] (.moved cells) u
  | ended {cells u t v rest marks verdict u'} : (∀ cells', verdict ≠ .moved cells') →
      Takes actions config t v cells u marks verdict u' →
      Runs cells u ((t, v) :: rest) marks verdict u'
  | moved {cells cells' u t v rest marks marks' verdict u' u''} :
      Takes actions config t v cells u marks (.moved cells') u' →
      Runs cells' u' rest marks' verdict u'' →
      Runs cells u ((t, v) :: rest) (marks ++ marks') verdict u''

end Automaton

section Unique

variable {actions : Actions σ} {config : Config Terminal} {recovery t : Terminal} {v : Value}
  {cells : List Cell} {w : Word} {u u' u'' : σ} {marks marks' : List Mark}
  {verdict verdict' : Verdict}

theorem works_unique {work : Work} {c c' : Content} (h : Works actions work u c u')
    (h' : Works actions work u c' u'') : c = c' ∧ u' = u'' := by
  cases h with
  | done =>
    cases h'
    exact ⟨rfl, rfl⟩
  | perform hcall =>
    cases h' with
    | perform hcall' =>
      cases hcall.symm.trans hcall'
      exact ⟨rfl, rfl⟩

theorem Reads.unique (h : Reads actions t v cells u marks verdict u')
    (h' : Reads actions t v cells u marks' verdict' u'') :
    marks = marks' ∧ verdict = verdict' ∧ u' = u'' := by
  induction h generalizing marks' verdict' u'' with
  | refuse haction =>
    cases h' with
    | refuse => exact ⟨rfl, rfl, rfl⟩
    | accept haction' | shift haction' | reduce haction' | breaks haction' =>
      cases haction.symm.trans haction'
  | accept haction =>
    cases h' with
    | accept => exact ⟨rfl, rfl, rfl⟩
    | refuse haction' | shift haction' | reduce haction' | breaks haction' =>
      cases haction.symm.trans haction'
  | shift haction =>
    cases h' with
    | shift haction' =>
      cases haction.symm.trans haction'
      exact ⟨rfl, rfl, rfl⟩
    | refuse haction' | accept haction' | reduce haction' | breaks haction' =>
      cases haction.symm.trans haction'
  | reduce haction hreduces hworks _ ih =>
    cases h' with
    | reduce haction' hreduces' hworks' hreads' =>
      cases haction.symm.trans haction'
      obtain ⟨rfl, rfl, rfl⟩ := hreduces.unique hreduces'
      obtain ⟨rfl, rfl⟩ := works_unique hworks hworks'
      obtain ⟨rfl, rfl, rfl⟩ := ih hreads'
      exact ⟨rfl, rfl, rfl⟩
    | breaks haction' hreduces' hcall' =>
      cases haction.symm.trans haction'
      obtain ⟨rfl, -, -⟩ := hreduces.unique hreduces'
      cases hworks with
      | perform hcall => cases hcall.symm.trans hcall'
    | refuse haction' | accept haction' | shift haction' => cases haction.symm.trans haction'
  | breaks haction hreduces hcall =>
    cases h' with
    | breaks haction' hreduces' hcall' =>
      cases haction.symm.trans haction'
      obtain ⟨hcalls, -, -⟩ := hreduces.unique hreduces'
      cases hcalls
      cases hcall.symm.trans hcall'
      exact ⟨rfl, rfl, rfl⟩
    | reduce haction' hreduces' hworks' =>
      cases haction.symm.trans haction'
      obtain ⟨rfl, -, -⟩ := hreduces.unique hreduces'
      cases hworks' with
      | perform hcall' => cases hcall.symm.trans hcall'
    | refuse haction' | accept haction' | shift haction' => cases haction.symm.trans haction'

theorem Offers.unique (h : Offers actions config t v cells u marks verdict u')
    (h' : Offers actions config t v cells u marks' verdict' u'') :
    marks = marks' ∧ verdict = verdict' ∧ u' = u'' := by
  cases h with
  | read hne hreads =>
    cases h' with
    | read _ hreads' =>
      obtain ⟨rfl, rfl, rfl⟩ := hreads.unique hreads'
      exact ⟨rfl, rfl, rfl⟩
    | discarded _ hreads' | kept _ hreads' => exact absurd (hreads.unique hreads').2.1 hne
  | discarded hend hreads =>
    cases h' with
    | discarded _ hreads' =>
      obtain ⟨rfl, -, rfl⟩ := hreads.unique hreads'
      exact ⟨rfl, rfl, rfl⟩
    | read hne hreads' => exact absurd (hreads'.unique hreads).2.1 hne
    | kept hend' => exact absurd hend' hend
  | kept hend hreads =>
    cases h' with
    | kept _ hreads' =>
      obtain ⟨rfl, -, rfl⟩ := hreads.unique hreads'
      exact ⟨rfl, rfl, rfl⟩
    | read hne hreads' => exact absurd (hreads'.unique hreads).2.1 hne
    | discarded hend' => exact absurd hend hend'

theorem Recovers.unique (h : Recovers actions config recovery t v cells u marks verdict u')
    (h' : Recovers actions config recovery t v cells u marks' verdict' u'') :
    marks = marks' ∧ verdict = verdict' ∧ u' = u'' := by
  cases h with
  | hopeless hhandler =>
    cases h' with
    | hopeless => exact ⟨rfl, rfl, rfl⟩
    | refused hhandler' | resumed hhandler' => cases hhandler.symm.trans hhandler'
  | refused hhandler hreads =>
    cases h' with
    | hopeless hhandler' => cases hhandler.symm.trans hhandler'
    | refused hhandler' hreads' =>
      cases hhandler.symm.trans hhandler'
      obtain ⟨rfl, -, rfl⟩ := hreads.unique hreads'
      exact ⟨rfl, rfl, rfl⟩
    | resumed hhandler' hreads' =>
      cases hhandler.symm.trans hhandler'
      cases (hreads.unique hreads').2.1
  | resumed hhandler hreads hoffers =>
    cases h' with
    | hopeless hhandler' => cases hhandler.symm.trans hhandler'
    | refused hhandler' hreads' =>
      cases hhandler.symm.trans hhandler'
      cases (hreads.unique hreads').2.1
    | resumed hhandler' hreads' hoffers' =>
      cases hhandler.symm.trans hhandler'
      obtain ⟨rfl, hmoved, rfl⟩ := hreads.unique hreads'
      cases hmoved
      obtain ⟨rfl, rfl, rfl⟩ := hoffers.unique hoffers'
      exact ⟨rfl, rfl, rfl⟩

theorem Takes.unique (h : Takes actions config t v cells u marks verdict u')
    (h' : Takes actions config t v cells u marks' verdict' u'') :
    marks = marks' ∧ verdict = verdict' ∧ u' = u'' := by
  cases h with
  | read hne hreads =>
    cases h' with
    | read _ hreads' => exact hreads.unique hreads'
    | refused _ hreads' | recovered _ hreads' => exact absurd (hreads.unique hreads').2.1 hne
  | refused hrecovery hreads =>
    cases h' with
    | read hne hreads' => exact absurd (hreads'.unique hreads).2.1 hne
    | refused _ hreads' => exact hreads.unique hreads'
    | recovered hrecovery' => cases hrecovery.symm.trans hrecovery'
  | recovered hrecovery hreads hrecovers =>
    cases h' with
    | read hne hreads' => exact absurd (hreads'.unique hreads).2.1 hne
    | refused hrecovery' => cases hrecovery.symm.trans hrecovery'
    | recovered hrecovery' hreads' hrecovers' =>
      cases hrecovery.symm.trans hrecovery'
      obtain ⟨rfl, -, rfl⟩ := hreads.unique hreads'
      obtain ⟨rfl, rfl, rfl⟩ := hrecovers.unique hrecovers'
      exact ⟨rfl, rfl, rfl⟩

theorem Runs.unique (h : Runs actions config cells u w marks verdict u')
    (h' : Runs actions config cells u w marks' verdict' u'') :
    marks = marks' ∧ verdict = verdict' ∧ u' = u'' := by
  induction h generalizing marks' verdict' u'' with
  | done =>
    cases h'
    exact ⟨rfl, rfl, rfl⟩
  | ended hends htakes =>
    cases h' with
    | ended _ htakes' => exact htakes.unique htakes'
    | moved htakes' => exact absurd (htakes.unique htakes').2.1 (hends _)
  | moved htakes _ ih =>
    cases h' with
    | ended hends' htakes' => exact absurd (htakes'.unique htakes).2.1 (hends' _)
    | moved htakes' hruns' =>
      obtain ⟨rfl, hmoved, rfl⟩ := htakes.unique htakes'
      cases hmoved
      obtain ⟨rfl, rfl, rfl⟩ := ih hruns'
      exact ⟨rfl, rfl, rfl⟩

end Unique

end Textbook

end ShiftReduce.Calculator
