import ShiftReduce.Proofs.Calculator.Arithmetic

/-!
The calculator on cells, with recovery. A token that is refused after some reductions finds the
cells as they were before it: recovery goes back from there to the statements, begins to skip, and
offers the token once more. The machine is deterministic.
-/

namespace ShiftReduce.Calculator

inductive Verdict : Type
  | refused
  | accepted (result : Value)
  | moved (cells : List Cell)
  | broke (e : Error)

inductive Decides (m : Arithmetic) (t : Terminal) (v : Value) : List Cell → Verdict → Prop
  | refuse {cell cells} : action cell.state t = .error → Decides m t v (cell :: cells) .refused
  | accept {cell cells} : action cell.state t = .accept →
      Decides m t v (cell :: cells) (.accepted cell.content.head)
  | shift {cell cells next} : action cell.state t = .shift next →
      Decides m t v (cell :: cells) (.moved (⟨next, .value v⟩ :: cell :: cells))
  | reduce {cell cells p work next below c verdict} : action cell.state t = .reduce p →
      Reduces p (cell :: cells) work next below → m.content work = .ok c →
      Decides m t v (⟨next, c⟩ :: below) verdict → Decides m t v (cell :: cells) verdict
  | breaks {cell cells p work next below e} : action cell.state t = .reduce p →
      Reduces p (cell :: cells) work next below → m.content work = .error e →
      Decides m t v (cell :: cells) (.broke e)

def handler (cells : List Cell) : List Cell := cells.dropWhile fun c => !handlesError c.state

def skipping (cells : List Cell) : List Cell := ⟨.skipping, .value .nothing⟩ :: cells

def resume (t : Terminal) (v : Value) (cells : List Cell) : Verdict :=
  if handler cells = [] then .refused
  else if t = .semicolon then .moved (⟨.skipped, .value v⟩ :: skipping (handler cells))
  else if t = .eof then .refused
  else .moved (skipping (handler cells))

inductive Settles (m : Arithmetic) (t : Terminal) (v : Value) (cells : List Cell) : Verdict → Prop
  | decided {verdict} : verdict ≠ .refused → Decides m t v cells verdict →
      Settles m t v cells verdict
  | resumed : Decides m t v cells .refused → Settles m t v cells (resume t v cells)

abbrev Item := Except Error (Terminal × Value)

/-- What the machine comes to from the cells. An input that is not well formed is rejected without
diagnostics. -/
inductive Evaluates (m : Arithmetic) :
    List Cell → List Item → Except Error (List (Option Int)) → Prop
  | ended {cells} : Evaluates m cells [] (.error (.rejected []))
  | malformed {cells e rest} : Evaluates m cells (.error e :: rest) (.error e)
  | refused {cells t v rest} : Settles m t v cells .refused →
      Evaluates m cells (.ok (t, v) :: rest) (.error (.rejected []))
  | accepted {cells t v rest results} : Settles m t v cells (.accepted (.program results)) →
      Evaluates m cells (.ok (t, v) :: rest) (.ok results)
  | broke {cells t v rest e} : Settles m t v cells (.broke e) →
      Evaluates m cells (.ok (t, v) :: rest) (.error e)
  | moved {cells cells' t v rest r} : Settles m t v cells (.moved cells') →
      Evaluates m cells' rest r → Evaluates m cells (.ok (t, v) :: rest) r

/-- Reading a word without recovery: `goes` holds of the cells that are left, or `fails` of the
error of an operation that fails on the way. -/
inductive Proceeds (m : Arithmetic) (goes : List Cell → Prop) (fails : Error → Prop) :
    List Cell → Word → Prop
  | done {cells} : goes cells → Proceeds m goes fails cells []
  | moved {cells cells' t v w} : Decides m t v cells (.moved cells') →
      Proceeds m goes fails cells' w → Proceeds m goes fails cells ((t, v) :: w)
  | broke {cells t v w e} : Decides m t v cells (.broke e) → fails e →
      Proceeds m goes fails cells ((t, v) :: w)

inductive Takes (m : Arithmetic) : List Cell → Word → List Cell → Prop
  | nil {cells} : Takes m cells [] cells
  | cons {cells cells' cells'' t v w} : Settles m t v cells (.moved cells') →
      Takes m cells' w cells'' → Takes m cells ((t, v) :: w) cells''

variable {m : Arithmetic} {t : Terminal} {v : Value} {cells cells' : List Cell}
  {verdict verdict' : Verdict} {rest : List Item} {r r' : Except Error (List (Option Int))}

namespace Decides

variable {cell : Cell}

theorem of_error (haction : action cell.state t = .error)
    (h : Decides m t v (cell :: cells) verdict) : verdict = .refused := by
  cases h with
  | refuse => rfl
  | accept haction' | shift haction' | reduce haction' | breaks haction' =>
    rw [haction] at haction'
    cases haction'

theorem of_accept (haction : action cell.state t = .accept)
    (h : Decides m t v (cell :: cells) verdict) : verdict = .accepted cell.content.head := by
  cases h with
  | accept => rfl
  | refuse haction' | shift haction' | reduce haction' | breaks haction' =>
    rw [haction] at haction'
    cases haction'

theorem of_shift {next : State} (haction : action cell.state t = .shift next)
    (h : Decides m t v (cell :: cells) verdict) :
    verdict = .moved (⟨next, .value v⟩ :: cell :: cells) := by
  cases h with
  | shift haction' =>
    rw [haction] at haction'
    cases haction'
    rfl
  | refuse haction' | accept haction' | reduce haction' | breaks haction' =>
    rw [haction] at haction'
    cases haction'

theorem of_reduce {p : Production} {work : Work} {next : State} {below : List Cell}
    (haction : action cell.state t = .reduce p)
    (hreduces : Reduces p (cell :: cells) work next below)
    (h : Decides m t v (cell :: cells) verdict) :
    Leads (fun c => Decides m t v (⟨next, c⟩ :: below) verdict) (fun e => verdict = .broke e)
      (m.content work) := by
  cases h with
  | reduce haction' hreduces' hcontent hdecides =>
    rw [haction] at haction'
    cases haction'
    obtain ⟨rfl, rfl, rfl⟩ := hreduces.unique hreduces'
    rw [hcontent]
    exact hdecides
  | breaks haction' hreduces' hcontent =>
    rw [haction] at haction'
    cases haction'
    obtain ⟨rfl, rfl, rfl⟩ := hreduces.unique hreduces'
    rw [hcontent]
    rfl
  | refuse haction' | accept haction' | shift haction' =>
    rw [haction] at haction'
    cases haction'

theorem unique (h : Decides m t v cells verdict) (h' : Decides m t v cells verdict') :
    verdict = verdict' := by
  induction h with
  | refuse haction => exact (h'.of_error haction).symm
  | accept haction => exact (h'.of_accept haction).symm
  | shift haction => exact (h'.of_shift haction).symm
  | reduce haction hreduces hcontent _ ih =>
    have hleads := h'.of_reduce haction hreduces
    rw [hcontent] at hleads
    exact ih hleads
  | breaks haction hreduces hcontent =>
    have hleads := h'.of_reduce haction hreduces
    rw [hcontent] at hleads
    exact hleads.symm

end Decides

theorem Settles.unique (h : Settles m t v cells verdict) (h' : Settles m t v cells verdict') :
    verdict = verdict' := by
  cases h with
  | decided hne hdecides =>
    cases h' with
    | decided _ hdecides' => exact hdecides.unique hdecides'
    | resumed hdecides' => exact absurd (hdecides.unique hdecides') hne
  | resumed hdecides =>
    cases h' with
    | decided hne hdecides' => exact absurd (hdecides'.unique hdecides) hne
    | resumed => rfl

theorem Evaluates.congr (h : Settles m t v cells verdict) (h' : Settles m t v cells' verdict)
    (hr : Evaluates m cells (.ok (t, v) :: rest) r) :
    Evaluates m cells' (.ok (t, v) :: rest) r := by
  cases hr with
  | refused hsettles =>
    obtain rfl := h.unique hsettles
    exact .refused h'
  | accepted hsettles =>
    obtain rfl := h.unique hsettles
    exact .accepted h'
  | broke hsettles =>
    obtain rfl := h.unique hsettles
    exact .broke h'
  | moved hsettles hevaluates =>
    obtain rfl := h.unique hsettles
    exact .moved h' hevaluates

theorem Evaluates.of_moved (h : Settles m t v cells (.moved cells'))
    (hr : Evaluates m cells (.ok (t, v) :: rest) r) : Evaluates m cells' rest r := by
  cases hr with
  | refused hsettles | accepted hsettles | broke hsettles => cases h.unique hsettles
  | moved hsettles hevaluates =>
    cases h.unique hsettles
    exact hevaluates

theorem Evaluates.of_refused (h : Settles m t v cells .refused)
    (hr : Evaluates m cells (.ok (t, v) :: rest) r) : r = .error (.rejected []) := by
  cases hr with
  | refused => rfl
  | accepted hsettles | broke hsettles | moved hsettles => cases h.unique hsettles

theorem Evaluates.of_broke {e : Error} (h : Settles m t v cells (.broke e))
    (hr : Evaluates m cells (.ok (t, v) :: rest) r) : r = .error e := by
  cases hr with
  | refused hsettles | accepted hsettles | moved hsettles => cases h.unique hsettles
  | broke hsettles =>
    cases h.unique hsettles
    rfl

theorem Evaluates.of_accepted {results : List (Option Int)}
    (h : Settles m t v cells (.accepted (.program results)))
    (hr : Evaluates m cells (.ok (t, v) :: rest) r) : r = .ok results := by
  cases hr with
  | refused hsettles | broke hsettles | moved hsettles => cases h.unique hsettles
  | accepted hsettles =>
    cases h.unique hsettles
    rfl

theorem Evaluates.unique {input : List Item} (h : Evaluates m cells input r)
    (h' : Evaluates m cells input r') : r = r' := by
  induction h with
  | ended | malformed =>
    cases h'
    rfl
  | refused hsettles => exact (h'.of_refused hsettles).symm
  | accepted hsettles => exact (h'.of_accepted hsettles).symm
  | broke hsettles => exact (h'.of_broke hsettles).symm
  | moved hsettles hevaluates ih => exact ih (h'.of_moved hsettles)

theorem Decides.eof_of_accepted {result : Value} (h : Decides m t v cells (.accepted result)) :
    t = .eof := by
  generalize hverdict : Verdict.accepted result = verdict at h
  induction h with
  | accept haction => exact (eq_of_accept haction).2
  | reduce _ _ _ _ ih => exact ih hverdict
  | refuse | shift | breaks => cases hverdict

theorem Settles.decides_of_accepted {result : Value}
    (h : Settles m t v cells (.accepted result)) : Decides m t v cells (.accepted result) := by
  generalize hverdict : Verdict.accepted result = verdict at h
  cases h with
  | decided _ hdecides => exact hdecides
  | resumed =>
    unfold resume at hverdict
    split_ifs at hverdict

theorem handler_eq_cons (cells : List Cell) (h : handler cells ≠ []) :
    ∃ c rest, handler cells = ⟨.statements, c⟩ :: rest := by
  induction cells with
  | nil => exact absurd rfl h
  | cons cell cells ih =>
    obtain ⟨q, c⟩ := cell
    rw [handler, List.dropWhile_cons] at h ⊢
    cases hq : handlesError q with
    | false =>
      simp only [hq] at h ⊢
      exact ih h
    | true =>
      obtain rfl : q = .statements := by simpa [handlesError] using hq
      exact ⟨c, cells, rfl⟩

theorem Proper.handler (h : Proper cells) (hhandler : handler cells ≠ []) :
    Proper (handler cells) := by
  obtain ⟨cell, rest, hrest⟩ := List.exists_cons_of_ne_nil hhandler
  have hsplit : cells = cells.takeWhile (fun c => !handlesError c.state) ++ cell :: rest := by
    rw [← hrest, Calculator.handler, List.takeWhile_append_dropWhile]
  rw [hsplit] at h
  rw [hrest]
  exact h.of_append

def Raises (m : Arithmetic) (r : Except Error (List (Option Int))) : Prop :=
  ∃ call e, m.answer call = .error e ∧ r = .error e

theorem Arithmetic.exists_answer {work : Work} {e : Error} (h : m.content work = .error e) :
    ∃ call, m.answer call = .error e := by
  cases work with
  | done c => cases h
  | perform call =>
    refine ⟨call, ?_⟩
    cases hanswer : m.answer call with
    | ok u =>
      rw [content, hanswer] at h
      cases h
    | error e' =>
      rw [content, hanswer] at h
      cases h
      rfl

theorem Decides.exists_answer {e : Error} (h : Decides m t v cells (.broke e)) :
    ∃ call, m.answer call = .error e := by
  generalize hverdict : Verdict.broke e = verdict at h
  induction h with
  | breaks _ _ hcontent =>
    cases hverdict
    exact m.exists_answer hcontent
  | reduce _ _ _ _ ih => exact ih hverdict
  | refuse | accept | shift => cases hverdict

theorem Settles.decides_of_broke {e : Error} (h : Settles m t v cells (.broke e)) :
    Decides m t v cells (.broke e) := by
  generalize hverdict : Verdict.broke e = verdict at h
  cases h with
  | decided _ hdecides => exact hdecides
  | resumed =>
    unfold resume at hverdict
    split_ifs at hverdict

theorem Settles.raises {e : Error} (h : Settles m t v cells (.broke e)) : Raises m (.error e) := by
  obtain ⟨call, hanswer⟩ := h.decides_of_broke.exists_answer
  exact ⟨call, e, hanswer, rfl⟩

namespace Proceeds

variable {goes goes' : List Cell → Prop} {fails fails' : Error → Prop} {w : Word}

theorem traced : Traced m (Proceeds m goes fails) fails where
  shift haction h := .moved (.shift haction) h
  reduce {cell cells t v w p work next below} haction hreduces h := by
    cases hcontent : m.content work with
    | ok c =>
      rw [hcontent] at h
      cases h with
      | moved hdecides h => exact .moved (.reduce haction hreduces hcontent hdecides) h
      | broke hdecides he => exact .broke (.reduce haction hreduces hcontent hdecides) he
    | error e =>
      rw [hcontent] at h
      exact .broke (.breaks haction hreduces hcontent) h

theorem evaluates (h : Proceeds m goes fails cells w)
    (hr : Evaluates m cells (w.map .ok ++ rest) r) :
    Raises m r ∨ ∃ cells', goes cells' ∧ Evaluates m cells' rest r := by
  induction h with
  | done h => exact .inr ⟨_, h, hr⟩
  | moved hdecides _ ih => exact ih (hr.of_moved (.decided nofun hdecides))
  | @broke cells t v w e hdecides =>
    have hsettles : Settles m t v cells (.broke e) := .decided nofun hdecides
    rw [hr.of_broke hsettles]
    exact .inl hsettles.raises

theorem meet (h : Proceeds m goes fails cells w) (h' : Proceeds m goes' fails' cells w) :
    (∃ cells', goes cells' ∧ goes' cells') ∨ ∃ e, fails e ∧ fails' e := by
  induction h with
  | done h =>
    cases h' with
    | done h' => exact .inl ⟨_, h, h'⟩
  | moved hdecides _ ih =>
    cases h' with
    | moved hdecides' h' =>
      cases hdecides.unique hdecides'
      exact ih h'
    | broke hdecides' => cases hdecides.unique hdecides'
  | broke hdecides he =>
    cases h' with
    | moved hdecides' => cases hdecides.unique hdecides'
    | broke hdecides' he' =>
      cases hdecides.unique hdecides'
      exact .inr ⟨_, he, he'⟩

end Proceeds

theorem Takes.evaluates {w : Word} (h : Takes m cells w cells')
    (hr : Evaluates m cells (w.map .ok ++ rest) r) : Evaluates m cells' rest r := by
  induction h with
  | nil => exact hr
  | cons hsettles _ ih => exact ih (hr.of_moved hsettles)

theorem Evaluates.takes {w : Word} {results : List (Option Int)} (hw : ∀ tv ∈ w, tv.1 ≠ .eof)
    (hr : Evaluates m cells (w.map .ok ++ rest) (.ok results)) :
    ∃ cells', Takes m cells w cells' ∧ Evaluates m cells' rest (.ok results) := by
  induction w generalizing cells with
  | nil => exact ⟨cells, .nil, hr⟩
  | cons tv w ih =>
    obtain ⟨t, v⟩ := tv
    obtain ⟨ht, htail⟩ := List.forall_mem_cons.mp hw
    cases hr with
    | accepted hsettles => exact absurd hsettles.decides_of_accepted.eof_of_accepted ht
    | moved hsettles hevaluates =>
      obtain ⟨cells', htakes, hend⟩ := ih htail hevaluates
      exact ⟨cells', .cons hsettles htakes, hend⟩

end ShiftReduce.Calculator
