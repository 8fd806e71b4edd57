import ShiftReduce.Calculator.Parser
import ShiftReduce.Proofs.Engine.Quiet
import ShiftReduce.Proofs.Engine.Course

namespace ShiftReduce.Calculator

variable {σ : Type} {actions : Actions σ} {config : Config Terminal} {token : Terminal}
  {value : Value} {s t u : Session σ}

structure Account where
  diagnostics : List Diagnostic
  span : Span
  errors : Nat
  failed : Bool

def account (s : Session σ) : Account :=
  ⟨s.client.diagnostics, s.client.span, s.stats.errors, s.failed⟩

theorem account_blind (actions : Actions σ) (config : Config Terminal) :
    Engine.Blind (engine actions config) account where
  stack s stack := rfl
  told notice s hnotice := by
    cases notice <;> first | rfl | cases hnotice
  called production args s := by
    simp only [Engine.callProvider, engine, provider, Client.reduce]
    cases Request.of? args production with
    | none => rfl
    | some request =>
      cases request with
      | error e => rfl
      | ok request =>
        cases request with
        | copy v => rfl
        | perform call =>
          simp only
          cases actions.perform call s.client.user <;> rfl

inductive Reports (s t : Session σ) : Prop
  | none : account t = account s → Reports s t
  | one (message : String) : account t = ⟨s.client.diagnostics ++ [⟨s.client.span, message⟩],
      s.client.span, s.stats.errors + 1, true⟩ → Reports s t

theorem Reports.of_account {s' t' : Session σ} (h : Reports s t) (hs : account s' = account s)
    (ht : account t' = account t) : Reports s' t' := by
  obtain ⟨hdiagnostics, hspan, herrors, -⟩ := Account.mk.inj hs
  cases h with
  | none h => exact .none (ht.trans (h.trans hs.symm))
  | one message h => exact .one message (by rw [ht, h, hdiagnostics, hspan, herrors])

theorem Reports.account_eq (h : Reports s t) (hopen : t.failed = false) : account t = account s := by
  cases h with
  | none haccount => exact haccount
  | one message haccount =>
    have hfailed : t.failed = true := congrArg Account.failed haccount
    cases hopen.symm.trans hfailed

def complaint (q : State) (token : Terminal) : String :=
  diagnosis ⟨q, token, table.expected q⟩

inductive Refusal (token : Terminal) (s t : Session σ) : Prop
  | intro {head fs} : t.stack.frames = head :: fs →
      account t = ⟨s.client.diagnostics ++ [⟨s.client.span, complaint head.state token⟩],
        s.client.span, s.stats.errors + 1, true⟩ → Refusal token s t

theorem Refusal.reports (h : Refusal token s t) : Reports s t := by
  obtain ⟨-, haccount⟩ := h
  exact .one _ haccount

theorem Refusal.after (h : Refusal token t u) (hs : account t = account s) :
    Refusal token s u := by
  obtain ⟨hframes, haccount⟩ := h
  obtain ⟨hdiagnostics, hspan, herrors, -⟩ := Account.mk.inj hs
  exact .intro hframes (by rw [haccount, hdiagnostics, hspan, herrors])

theorem decideToken_account {settled : Bool} (hcapacity : s.stack.capacity = none)
    (h : (engine actions config).decideToken token value s = .ok settled t) :
    account t = account s ∨ settled = true ∧ Refusal token s t := by
  have hblind := account_blind actions config
  have hdecided := Engine.decideToken_decided (engine actions config) s token value
  rw [h] at hdecided
  cases hdecided with
  | refused hframes => exact .inr ⟨rfl, .intro hframes rfl⟩
  | accepted => exact .inl rfl
  | shifted _ _ hpush =>
    have haccount : account t = account _ := Engine.observe_of_ok (hblind.push _) hpush hcapacity
    exact .inl haccount
  | @reduced _ _ p rule _ u _ _ _ hreduce =>
    have haccount : account u = account _ :=
      Engine.observe_of_ok (hblind.reduce p rule) hreduce hcapacity
    exact .inl haccount

theorem driveWithin_account {steps : Nat} (hcapacity : s.stack.capacity = none)
    (h : (engine actions config).driveWithin token value steps s = .ok () t) :
    account t = account s ∨ Refusal token s t := by
  induction steps generalizing s with
  | zero => cases h
  | succ steps ih =>
    obtain ⟨settled, u, hdecide, hrest⟩ := Engine.exists_of_bind_ok h
    have hbase := Engine.KeepsBase.decideToken (engine actions config) token value s
    rw [hdecide] at hbase
    rcases decideToken_account hcapacity hdecide with haccount | ⟨rfl, hrefusal⟩
    · cases settled with
      | true =>
        cases hrest
        exact .inl haccount
      | false =>
        have hlater := ih (hbase.capacity_eq.trans hcapacity) hrest
        exact hlater.imp (·.trans haccount) (·.after haccount)
    · cases hrest
      exact .inr hrefusal

theorem drive_account (hcapacity : s.stack.capacity = none)
    (h : (engine actions config).drive token value s = .ok () t) :
    account t = account s ∨ Refusal token s t :=
  driveWithin_account hcapacity h

theorem drive_reports (hcapacity : s.stack.capacity = none)
    (h : (engine actions config).drive token value s = .ok () t) : Reports s t :=
  (drive_account hcapacity h).elim .none Refusal.reports

theorem post_reports (hrecovery : config.recovery = none) (hcapacity : s.stack.capacity = none)
    {closed : Bool} (h : (engine actions config).post token value s = .ok closed t) :
    Reports s t := by
  have hcourse := Engine.post_course (engine actions config) token value s
  rw [h] at hcourse
  cases hcourse with
  | answered _ hsettles =>
    cases hsettles with
    | taken hdrive | failed hdrive =>
      have hreports := drive_reports (s := s.opened) hcapacity hdrive
      exact hreports.of_account rfl rfl
    | recovered _ _ hsome =>
      rw [show (engine actions config).config.recovery = none from hrecovery] at hsome
      cases hsome

end ShiftReduce.Calculator
