import ShiftReduce.Proofs.Calculator.Diagnosis
import ShiftReduce.Proofs.Engine.Alarm
import ShiftReduce.Proofs.Engine.Loop

namespace ShiftReduce.Calculator

variable {σ : Type} {actions : Actions σ} {config : Config Terminal} {token : Terminal}
  {value : Value} {s t u : Session σ}

section Posts

theorem account_discreet (actions : Actions σ) (config : Config Terminal) :
    Engine.Discreet (engine actions config) account where
  stack _ _ := rfl
  told notice s hnotice := by cases notice <;> first | rfl | cases hnotice
  called := (account_blind actions config).called
  reduced _ := rfl
  failed h := congrArg Account.failed h

theorem drive_messages (hopen : s.failed = false)
    (h : (engine actions config).drive token value s = .ok () t) :
    ∃ messages, messages.length = t.failed.toNat ∧ Noted messages s t := by
  have hended := (account_discreet actions config).drive_ended token value hopen
  rw [h] at hended
  have hquiet : account t = account s →
      ∃ messages, messages.length = t.failed.toNat ∧ Noted messages s t := by
    intro ht
    have hstill : t.failed = false := (congrArg Account.failed ht).trans hopen
    exact ⟨[], by rw [hstill]; rfl, .of_account ht⟩
  cases hended with
  | shifted hu ht => exact hquiet (ht.trans hu)
  | accepted hu => exact hquiet hu
  | @refused u err hu => exact ⟨[diagnosis err], rfl, (Noted.of_account hu).trans ⟨rfl, rfl⟩⟩
  | crowded hu | overrun hu =>
    exact ⟨[overflowDiagnosis], rfl, (Noted.of_account hu).trans ⟨rfl, rfl⟩⟩

end Posts

section Rejections

/-- An operation may fail with the error, though none of its arguments is that error. -/
def Actions.Fails (actions : Actions σ) (e : Error) : Prop :=
  ∃ call user user', ¬ call.Carries e ∧ actions.perform call user = .error e user'

namespace Request

variable {args : Operands} {e : Error}

end Request

end Rejections

end ShiftReduce.Calculator
