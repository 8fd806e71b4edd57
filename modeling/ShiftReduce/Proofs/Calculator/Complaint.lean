import ShiftReduce.Proofs.Calculator.Boundary
import ShiftReduce.Proofs.Calculator.Earlier
import ShiftReduce.Proofs.Calculator.Report

namespace ShiftReduce.Calculator

inductive Refuses (m : Arithmetic) (t : Terminal) : List Cell → State → Prop
  | error {cell cells} : action cell.state t = .error → Refuses m t (cell :: cells) cell.state
  | reduce {cell cells p work next below c q} : action cell.state t = .reduce p →
      Reduces p (cell :: cells) work next below → m.content work = .ok c →
      Refuses m t (⟨next, c⟩ :: below) q → Refuses m t (cell :: cells) q

def repeated (t : Terminal) (cells : List Cell) : List String :=
  if handler cells = [] then [] else if t = .semicolon then [] else [complaint .skipping t]

inductive Complains (m : Arithmetic) (t : Terminal) (v : Value) (cells : List Cell) :
    List String → Prop
  | nothing {verdict} : verdict ≠ .refused → Decides m t v cells verdict → Complains m t v cells []
  | refused {q} : Refuses m t cells q →
      Complains m t v cells (complaint q t :: repeated t cells)

variable {m : Arithmetic} {es : List Value} {t : Terminal} {v : Value} {q q' : State} {cell : Cell}
  {cells cells' : List Cell} {us : List (Option (Option Int))} {verdict : Verdict}
  {messages messages' : List String}

namespace Refuses

theorem of_error (haction : action cell.state t = .error) (h : Refuses m t (cell :: cells) q) :
    q = cell.state := by
  cases h with
  | error => rfl
  | reduce haction' => cases haction.symm.trans haction'

theorem unique (h : Refuses m t cells q) (h' : Refuses m t cells q') : q = q' := by
  induction h with
  | error haction => exact (h'.of_error haction).symm
  | reduce haction hreduces hcontent _ ih =>
    cases h' with
    | error haction' => cases haction.symm.trans haction'
    | reduce haction' hreduces' hcontent' h' =>
      cases haction.symm.trans haction'
      obtain ⟨rfl, rfl, rfl⟩ := hreduces.unique hreduces'
      cases hcontent.symm.trans hcontent'
      exact ih h'

theorem decides (h : Refuses m t cells q) (v : Value) : Decides m t v cells .refused := by
  induction h with
  | error haction => exact .refuse haction
  | reduce haction hreduces hcontent _ ih => exact .reduce haction hreduces hcontent ih

theorem earlier (h : Refuses m t cells' q) (hcells : Earlier es cells cells') :
    Refuses m t cells q := by
  induction h generalizing cells with
  | error haction =>
    obtain ⟨cell, rest, rfl, hstate, -⟩ := hcells.head
    rw [← hstate] at haction ⊢
    exact .error haction
  | @reduce cell' cells' p work next below' c q haction hreduces hcontent hrefuses ih =>
    obtain ⟨cell, rest, rfl, hstate, -⟩ := hcells.head
    rw [← hstate] at haction
    cases hreduces.shares hcells with
    | above hreduces' hnext hbelow =>
      exact .reduce haction hreduces' hcontent (ih (hbelow.cons hnext c))
    | statement us v hreduces' =>
      cases hcontent
      have hground : Earlier es (ground (us ++ [v])) (ground (es ++ us ++ [v])) :=
        ⟨[], us ++ [v], nofun, rfl, by rw [List.append_assoc]; rfl⟩
      exact .reduce haction hreduces' rfl (ih hground)
    | program us hreduces' =>
      cases hcontent
      have haccepting : action .accepting t = if t = .eof then .accept else .error := rfl
      split at haccepting
      · cases (hrefuses.decides .nothing).of_accept haccepting
      · obtain rfl := hrefuses.of_error haccepting
        exact .reduce haction hreduces' rfl (.error haccepting)

end Refuses

theorem Decides.refuses (h : Decides m t v cells .refused) : ∃ q, Refuses m t cells q := by
  generalize hverdict : Verdict.refused = verdict at h
  induction h with
  | refuse haction => exact ⟨_, .error haction⟩
  | reduce haction hreduces hcontent _ ih =>
    obtain ⟨q, hrefuses⟩ := ih hverdict
    exact ⟨q, .reduce haction hreduces hcontent hrefuses⟩
  | accept | shift | breaks => cases hverdict

theorem Earlier.repeated_eq (h : Earlier es cells cells') : repeated t cells = repeated t cells' := by
  rw [repeated, repeated, if_neg h.handler.ne_nil.1, if_neg h.handler.ne_nil.2]

namespace Complains

theorem eq_nil (h : Complains m t v cells messages) (hdecides : Decides m t v cells verdict)
    (hne : verdict ≠ .refused) : messages = [] := by
  cases h with
  | nothing => rfl
  | refused hrefuses => exact absurd (hdecides.unique (hrefuses.decides v)) hne

theorem unique (h : Complains m t v cells messages) (h' : Complains m t v cells messages') :
    messages = messages' := by
  cases h with
  | nothing hne hdecides => exact (h'.eq_nil hdecides hne).symm
  | refused hrefuses =>
    cases h' with
    | nothing hne' hdecides' => exact absurd (hdecides'.unique (hrefuses.decides v)) hne'
    | refused hrefuses' => rw [hrefuses.unique hrefuses']

theorem earlier (h : Complains m t v cells' messages) (hcells : Earlier es cells cells') :
    Complains m t v cells messages := by
  cases h with
  | nothing hne hdecides =>
    obtain ⟨verdict, hverdict, hcarries⟩ := hdecides.earlier hcells
    exact .nothing (hcarries.ne_refused hne) hverdict
  | refused hrefuses =>
    rw [← hcells.repeated_eq]
    exact .refused (hrefuses.earlier hcells)

end Complains

theorem Settles.complains (h : Settles m t v cells verdict) :
    ∃ messages, Complains m t v cells messages := by
  cases h with
  | decided hne hdecides => exact ⟨[], .nothing hne hdecides⟩
  | resumed hdecides =>
    obtain ⟨q, hrefuses⟩ := hdecides.refuses
    exact ⟨_, .refused hrefuses⟩

theorem Boundary.complains (h : Boundary m us cells) (ht : t ∈ Nonterminal.statement.follow)
    (v : Value) : Complains m t v (base us) [] ∧ Complains m t v cells [] := by
  have hbase : ∃ verdict, verdict ≠ .refused ∧ Decides m t v (base us) verdict := decides_base ht
  obtain ⟨verdict, hne, hdecides⟩ := hbase
  exact ⟨.nothing hne hdecides, .nothing hne (h.decides ht hdecides)⟩

end ShiftReduce.Calculator
