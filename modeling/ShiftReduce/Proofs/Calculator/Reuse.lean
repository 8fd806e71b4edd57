import ShiftReduce.Proofs.Calculator.Order
import ShiftReduce.Proofs.Engine.Client

namespace ShiftReduce.Calculator

variable {σ α β : Type} {actions : Actions σ} {config : Config Terminal}

section Beginning

def unused (capacity : Option Nat) (user : σ) : Session σ :=
  ⟨.empty capacity, Client.new user, false, false, none, {}⟩

def opening (actions : Actions σ) (config : Config Terminal) : Calculation σ Unit := do
  liftRun (engine actions config).reset
  modifyClient Client.begin

theorem parse_eq (source : String) (s : Session σ) :
    parse actions config source s = (opening actions config >>= fun _ =>
      feed actions config (lexemes source) >>= fun _ => conclude) s := by
  rw [opening, bind_assoc]
  rfl

theorem modifyClient_run (f : Client σ → Client σ) (s : Session σ) :
    modifyClient f s = .ok () { s with client := f s.client } := rfl

theorem opening_unused (hsilent : actions.Silent) (s : Session σ) :
    opening actions config s =
      opening actions config (unused s.stack.capacity s.client.user) := by
  have hreset : ∀ s, opening actions config s = modifyClient Client.begin _ :=
    fun s => Engine.bind_of_ok (liftRun_ok (Engine.reset_run s rfl))
  have hstack : (Engine.cleared (unused s.stack.capacity s.client.user)).stack =
      (Engine.cleared s).stack := rfl
  have hbegin : ∀ err (c : Client σ),
      ((engine actions config).provider.notify (.stackOverflow err) c).begin = c.begin :=
    fun err c => congrArg Client.new (hsilent _ _)
  rw [hreset, hreset, hstack]
  -- The start may find no room; what is told of that is forgotten with the old client.
  generalize (Engine.cleared s).stack.push _ = pushed
  cases pushed with
  | ok stack => rfl
  | error err =>
    simp only [modifyClient_run, ShiftReduce.Session.commit, ShiftReduce.Session.fail,
      ShiftReduce.Session.tell, hbegin]
    rfl

theorem parse_unused (hsilent : actions.Silent) (source : String) (s : Session σ) :
    parse actions config source s =
      parse actions config source (unused s.stack.capacity s.client.user) := by
  have hopening : opening actions config s = _ := opening_unused hsilent s
  rw [parse_eq, parse_eq]
  simp only [Bind.bind, EStateM.bind, hopening]

end Beginning

structure Spares (s t : Session σ) : Prop where
  user_eq : t.client.user = s.client.user
  capacity_eq : t.stack.capacity = s.stack.capacity

namespace Spares

theorem trans {s t u : Session σ} (h : Spares s t) (k : Spares t u) : Spares s u :=
  ⟨k.user_eq.trans h.user_eq, k.capacity_eq.trans h.capacity_eq⟩

variable {ε : Type} {x : EStateM ε (Session σ) α} {f : α → EStateM ε (Session σ) β}

theorem bind (hx : ∀ s, Spares s (Engine.final (x s)))
    (hf : ∀ a s, Spares s (Engine.final (f a s))) (s : Session σ) :
    Spares s (Engine.final ((x >>= f) s)) := by
  rcases Engine.final_bind x f s with h | ⟨a, h⟩
  · rw [h]
    exact hx s
  · rw [h]
    exact (hx s).trans (hf a _)

theorem liftRun {run : Run State Value (Client σ) α} (h : ∀ s, Spares s (Engine.final (run s)))
    (s : Session σ) : Spares s (Engine.final (Calculator.liftRun run s)) := by
  have hrun := h s
  rw [Calculator.liftRun]
  revert hrun
  rcases run s with ⟨a, t⟩ | ⟨f | _ | _, t⟩
  · exact id
  · intro hrun
    dsimp only
    rw [surface]
    cases t.client.failure <;> exact ⟨hrun.user_eq, hrun.capacity_eq⟩
  · exact id
  · exact id

end Spares

section Stock

theorem Evaluator.keeps_user (config : Config Terminal) (user : σ) :
    (engine Evaluator.actions config).Keeps fun c _ => c.user = user where
  told notice c _ hc := by cases notice <;> exact hc
  called production args c _ hc := by
    show (remains (Client.reduce Evaluator.actions production args c)).user = user
    rw [Client.reduce]
    cases Request.of? args production with
    | none => exact hc
    | some request =>
      rcases request with e | v | call
      · exact hc
      · exact hc
      · dsimp only
        rcases Evaluator.perform_run call c.user with ⟨v, hcall⟩ | ⟨e, hcall, -⟩
        · rw [hcall]
          exact hc
        · rw [hcall]
          exact hc
  overflowed err c _ hc := hc
  refused err c _ hc := hc

theorem Evaluator.silent : (Evaluator.actions : Actions σ).Silent := fun _ _ => rfl

theorem post_spares (config : Config Terminal) (token : Terminal) (value : Value) (s : Session σ) :
    Spares s (Engine.final ((engine Evaluator.actions config).post token value s)) where
  user_eq := Engine.post_keeps (Evaluator.keeps_user config s.client.user) token value s rfl
  capacity_eq := Engine.post_capacity (engine Evaluator.actions config) token value s

theorem postToken_spares (config : Config Terminal) (l : Token) :
    ∀ s : Session σ, Spares s (Engine.final (postToken Evaluator.actions config l s)) :=
  Spares.bind (fun _ => ⟨rfl, rfl⟩) fun _ => Spares.bind (fun _ => ⟨rfl, rfl⟩) fun _ =>
    Spares.liftRun (post_spares config l.terminal l.value)

theorem feed_spares (config : Config Terminal) (lexemes : List Lexeme) :
    ∀ s : Session σ, Spares s (Engine.final (feed Evaluator.actions config lexemes s)) := by
  induction lexemes with
  | nil => exact fun s => ⟨rfl, rfl⟩
  | cons l rest ih =>
    cases l with
    | error e => exact fun s => ⟨rfl, rfl⟩
    | ok l =>
      refine Spares.bind (postToken_spares config l) fun closed => ?_
      cases closed with
      | true => exact fun s => ⟨rfl, rfl⟩
      | false => exact ih

theorem conclude_spares (s : Session σ) : Spares s (Engine.final (conclude s)) := by
  obtain ⟨t, hstack, huser, hrun⟩ := conclude_run s
  have ht : Spares s t := ⟨huser, congrArg Stack.capacity hstack⟩
  rw [hrun]
  rcases Engine.accepted? s with _ | _ | _ <;> exact ht

theorem reset_spares (config : Config Terminal) (s : Session σ) :
    Spares s (Engine.final ((engine Evaluator.actions config).reset s)) where
  user_eq := Engine.reset_keeps (Evaluator.keeps_user config s.client.user) s rfl
  capacity_eq := Engine.reset_capacity (engine Evaluator.actions config) s

theorem parse_spares (config : Config Terminal) (source : String) (s : Session σ) :
    Spares s (Engine.final (parse Evaluator.actions config source s)) := by
  rw [parse_eq]
  have hopening : ∀ s : Session σ, Spares s (Engine.final (opening Evaluator.actions config s)) :=
    Spares.bind (Spares.liftRun (reset_spares config)) fun _ _ => ⟨rfl, rfl⟩
  exact Spares.bind hopening (fun _ => Spares.bind (feed_spares config _) fun _ =>
    conclude_spares) s

theorem served_spares (config : Config Terminal) (user : σ) (history : List String) :
    Spares (unused config.capacity user) (served Evaluator.actions config user history) := by
  have hstart : Spares (unused config.capacity user)
      (Engine.final (start Evaluator.actions config user)) := by
    rw [start, Engine.final_start]
    exact reset_spares config (unused config.capacity user)
  rw [served]
  generalize Engine.final (start Evaluator.actions config user) = s at hstart
  induction history generalizing s with
  | nil => exact hstart
  | cons source rest ih => exact ih _ (hstart.trans (parse_spares config source s))

/-- With the stock actions a session is as good as new after anything: under any options, and
whatever the sources before came to, a source comes to what it comes to in a session that has served
none, and leaves the session as it would leave that one. -/
theorem parse_served (config : Config Terminal) (user : σ) (history : List String)
    (source : String) :
    parse Evaluator.actions config source (served Evaluator.actions config user history) =
      parse Evaluator.actions config source
        (Engine.final (start Evaluator.actions config user)) := by
  have hunused : ∀ history,
      parse Evaluator.actions config source (served Evaluator.actions config user history) =
        parse Evaluator.actions config source (unused config.capacity user) := by
    intro history
    have hserved := served_spares config user history
    rw [parse_unused Evaluator.silent, hserved.user_eq, hserved.capacity_eq]
    rfl
  exact (hunused history).trans (hunused []).symm

end Stock

end ShiftReduce.Calculator
