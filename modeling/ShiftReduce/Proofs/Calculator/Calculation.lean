import ShiftReduce.Proofs.Calculator.Faithful
import ShiftReduce.Proofs.Calculator.Language

namespace ShiftReduce.Calculator

variable {σ : Type} {actions : Actions σ} {config : Config Terminal} {m : Arithmetic}

def Error.unlocated : Error → Error
  | .character _ text => .character ⟨0, 0⟩ text
  | .rejected _ => .rejected []
  | e => e

theorem Error.Computed.unlocated {e : Error} (h : e.Computed) : e.unlocated = e := by
  cases e <;> first | rfl | cases h

def item : Lexeme → Item
  | .ok t => .ok (t.terminal, t.value)
  | .error e => .error e.unlocated

def items (source : String) : List Item := (lexemes source).map item

theorem exists_token {t : Terminal} {v : Value} {w : Word} {lexemes : List Lexeme}
    (h : lexemes.map item = ((t, v) :: w).map .ok) :
    ∃ l rest, lexemes = .ok l :: rest ∧ l.terminal = t ∧ l.value = v ∧
      rest.map item = w.map .ok := by
  obtain ⟨l, rest, rfl, hl, hrest⟩ := List.map_eq_cons_iff.mp h
  cases l with
  | error e => cases hl
  | ok l =>
    cases hl
    exact ⟨l, rest, rfl, rfl, rfl, hrest⟩

def summary : EStateM.Result (Halt Error) (Session σ) Outcome →
    Option (Except Error (List (Option Int)))
  | .ok outcome _ => some (.ok outcome.results)
  | .error (.raised e) _ => some (.error e.unlocated)
  | .error _ _ => none

structure Gives (r : Except Error (List (Option Int)))
    (x : EStateM.Result (Halt Error) (Session σ) Outcome) : Prop where
  summary_eq : summary x = some r
  capacity_eq : (Engine.final x).stack.capacity = none

section Steps

variable {s : Session σ} {cells : List Cell}

theorem conclude_run (s : Session σ) : ∃ t : Session σ, t.stack = s.stack ∧
    t.client.user = s.client.user ∧ conclude s = match Engine.accepted? s with
      | some (.program results) => .ok ⟨results, s.client.diagnostics⟩ t
      | some v => .error (.raised (.typeMismatch "program" v.kind)) t
      | none => .error (.raised (.rejected s.client.diagnostics)) t := by
  let cleared : Session σ := { s with client := { s.client with diagnostics := [] } }
  have hconclude : conclude s = (liftRun Engine.take >>= answerTo s.client.diagnostics) cleared :=
    conclude_eq s
  have haccepted : Engine.accepted? cleared = Engine.accepted? s := rfl
  have htake := Engine.take_run cleared
  rw [haccepted] at htake
  rw [hconclude]
  cases hvalue : Engine.accepted? s with
  | none =>
    rw [hvalue] at htake
    rw [Engine.bind_of_ok (liftRun_ok htake)]
    exact ⟨cleared, rfl, rfl, rfl⟩
  | some v =>
    rw [hvalue] at htake
    rw [Engine.bind_of_ok (liftRun_ok htake)]
    cases v <;> exact ⟨{ cleared with result := none }, rfl, rfl, rfl⟩

theorem conclude_rejected (h : s.accepted = false) (hcapacity : s.stack.capacity = none) :
    Gives (.error (.rejected [])) (conclude s) := by
  have hnone : Engine.accepted? s = none := by
    rw [Engine.accepted?, h]
    rfl
  obtain ⟨t, hstack, -, hrun⟩ := conclude_run s
  rw [← hstack] at hcapacity
  rw [hrun, hnone]
  exact ⟨rfl, hcapacity⟩

theorem Running.accepted?_eq (h : Running s) (v : Value) :
    Engine.accepted? { s with accepted := true, result := some v } = some v := by
  rw [Engine.accepted?, h.failed_eq]
  rfl

theorem Running.conclude_accepted (h : Running s) (results : List (Option Int)) :
    Gives (.ok results)
      (conclude { s with accepted := true, result := some (.program results) }) := by
  obtain ⟨t, hstack, -, hrun⟩ :=
    conclude_run { s with accepted := true, result := some (.program results) }
  have hcapacity := h.capacity_eq
  rw [hrun, h.accepted?_eq]
  exact ⟨rfl, (congrArg Stack.capacity hstack).trans hcapacity⟩

inductive Surfaced : Verdict → EStateM.Result (Halt Error) (Session σ) Bool → Prop
  | answered {verdict} {t : Session σ} : t.Settled → Reaches verdict (.ok () t) →
      Surfaced verdict (.ok t.closed t)
  | broke {t : Session σ} {e} : t.stack.capacity = none → Surfaced (.broke e) (.error (.raised e) t)

theorem Posted.liftRun {run : Run State Value (Client σ) Bool} {verdict : Verdict}
    (h : Posted verdict (run s)) : Surfaced verdict (liftRun run s) := by
  rw [Calculator.liftRun]
  generalize run s = r at h
  cases h with
  | answered hsettled hreaches => exact .answered hsettled hreaches
  | broke hfailure hcapacity =>
    dsimp only
    rw [surface, hfailure]
    exact .broke hcapacity

theorem postToken_reaches (hanswers : actions.Answers m) (hconfig : Recovering config) {t : Token}
    (ht : Shaped t.terminal t.value) (hs : Awaits cells s) (hsettled : s.Settled) :
    ∃ verdict, Settles m t.terminal t.value cells verdict ∧
      Surfaced verdict (postToken actions config t s) := by
  have hread : Awaits cells (located actions t s) :=
    hs.of_frames ⟨hs.failed_eq, hs.accepted_eq, hs.capacity_eq⟩ rfl
  obtain ⟨verdict, hsettles, hposted⟩ :=
    post_reaches hanswers hconfig ht hread (hsettled.of_stack rfl)
  exact ⟨verdict, hsettles, hposted.liftRun⟩

theorem feed_evaluates (hanswers : actions.Answers m) (hconfig : Recovering config)
    {lexemes : List Lexeme} (hlexemes : ∀ l ∈ lexemes, Legible l) (hs : Awaits cells s)
    (hsettled : s.Settled) :
    ∃ r, Gives r ((feed actions config lexemes >>= fun _ => conclude) s) ∧
      Evaluates m cells (lexemes.map item) r := by
  induction lexemes generalizing s cells with
  | nil => exact ⟨_, conclude_rejected hs.accepted_eq hs.capacity_eq, .ended⟩
  | cons l rest ih =>
    obtain ⟨hl, hrest⟩ := List.forall_mem_cons.mp hlexemes
    cases l with
    | error e => exact ⟨_, ⟨rfl, hs.capacity_eq⟩, .malformed⟩
    | ok t =>
      obtain ⟨verdict, hsettles, hposted⟩ := postToken_reaches hanswers hconfig hl hs hsettled
      rw [feed, bind_assoc]
      generalize hpost : postToken actions config t s = posted at hposted
      cases hposted with
      | @broke u e hcapacity =>
        obtain ⟨call, e', hanswer, hraised⟩ := hsettles.raises
        cases hraised
        rw [Engine.bind_of_error hpost]
        refine ⟨_, ⟨?_, hcapacity⟩, .broke hsettles⟩
        rw [summary, (hanswers.computed hanswer).unlocated]
      | answered hsettled' hreaches =>
        rw [Engine.bind_of_ok hpost]
        cases hreaches with
        | @refused u hu =>
          have hclosed : (u.fail true).closed = true := Bool.or_true u.accepted
          rw [hclosed]
          exact ⟨_, conclude_rejected hu.accepted_eq hu.capacity_eq, .refused hsettles⟩
        | accepted hu => exact ⟨_, hu.conclude_accepted _, .accepted hsettles⟩
        | moved hu =>
          rw [hu.closed_eq]
          obtain ⟨r, hr, hevaluates⟩ := ih hrest hu hsettled'
          exact ⟨r, hr, .moved hsettles hevaluates⟩

theorem parse_awaits (actions : Actions σ) (config : Config Terminal)
    (hcapacity : s.stack.capacity = none) (source : String) :
    ∃ t, parse actions config source s =
        (feed actions config (lexemes source) >>= fun _ => conclude) t ∧
      Awaits [⟨.start, .value .nothing⟩] t ∧ t.Settled ∧ t.client = s.client.begin := by
  obtain ⟨t, hparse, hfresh, hsettled, ht, hclient⟩ :=
    parse_begins actions config (.of_unbounded hcapacity 0) source
  refine ⟨t, hparse, ⟨⟨hfresh.failed_eq, hfresh.accepted_eq, ht.trans hcapacity⟩, .start, ?_⟩,
    hsettled, hclient⟩
  rw [hsettled.frames_eq]
  exact fresh_shows hfresh

theorem parse_evaluates (hanswers : actions.Answers m) (hconfig : Recovering config)
    (hcapacity : s.stack.capacity = none) (source : String) :
    ∃ r, Gives r (parse actions config source s) ∧
      Evaluates m [⟨.start, .value .nothing⟩] (items source) r := by
  obtain ⟨t, hparse, hawaits, hsettled, -⟩ := parse_awaits actions config hcapacity source
  rw [hparse]
  exact feed_evaluates hanswers hconfig (Lexer.scan_legible 0 source.toList) hawaits hsettled

theorem served_capacity (hanswers : actions.Answers m) (hconfig : Recovering config)
    (hcapacity : config.capacity = none) (user : σ) (sources : List String) :
    (served actions config user sources).stack.capacity = none := by
  have hstart : (Engine.final (start actions config user)).stack.capacity = none := by
    obtain ⟨s, hstart, hready⟩ := start_ready actions hcapacity user
    rw [hstart]
    exact hready.capacity_eq
  rw [served]
  generalize Engine.final (start actions config user) = s at hstart
  induction sources generalizing s with
  | nil => exact hstart
  | cons source rest ih =>
    obtain ⟨r, hgives, -⟩ := parse_evaluates hanswers hconfig hstart source
    exact ih _ hgives.capacity_eq

end Steps

namespace Evaluator

def arithmetic : Arithmetic where
  add := add
  sub := sub
  mul := mul
  div := div
  neg := neg
  call name ns := call name (ns.map .ok)
  statement := some

theorem reply_lifted (r : Except Error Int) (u : σ) :
    reply ((Value.number <$> Evaluator.actions.liftExcept r : Act σ Value) u) = .number <$> r := by
  cases r <;> rfl

theorem computed_of_number {r : Except Error Int} {e : Error}
    (h : (Value.number <$> r : Except Error Value) = .error e)
    (hr : ∀ e, r = .error e → e.Computed) : e.Computed := by
  cases r with
  | ok n => cases h
  | error e' =>
    cases h
    exact hr e rfl

theorem actions_answers : (Evaluator.actions : Actions σ).Answers arithmetic where
  reply_eq {call} hclean u := by
    cases call with
    | program | statement | recovered => rfl
    | add | sub | mul | div | neg => exact reply_lifted _ u
    | call name arguments =>
      show _ = Value.number <$> call name ((arguments.filterMap Except.toOption).map .ok)
      rw [← clean_eq_map hclean]
      exact reply_lifted _ u
  computed {call e} h := by
    cases call with
    | program | statement | recovered => cases h
    | add | sub | mul | neg => exact computed_of_number h fun e => checked_computed
    | div => exact computed_of_number h fun e => div_computed
    | call name arguments =>
      refine computed_of_number h fun e => call_computed fun argument hmem => ?_
      obtain ⟨n, _, rfl⟩ := List.mem_map.mp hmem
      exact ⟨n, rfl⟩

end Evaluator

theorem defaultConfig_recovering : Recovering defaultConfig := ⟨rfl, rfl, rfl⟩

def calculate (user : σ) (history : List String) (source : String) :
    EStateM.Result (Halt Error) (Session σ) Outcome :=
  parse Evaluator.actions defaultConfig source (served Evaluator.actions defaultConfig user history)

theorem calculate_evaluates (user : σ) (history : List String) (source : String) :
    ∃ r, summary (calculate user history source) = some r ∧
      Evaluates Evaluator.arithmetic [⟨.start, .value .nothing⟩] (items source) r := by
  have hcapacity :=
    served_capacity Evaluator.actions_answers defaultConfig_recovering rfl user history
  obtain ⟨r, hgives, hr⟩ :=
    parse_evaluates Evaluator.actions_answers defaultConfig_recovering hcapacity source
  exact ⟨r, hgives.summary_eq, hr⟩

end ShiftReduce.Calculator
