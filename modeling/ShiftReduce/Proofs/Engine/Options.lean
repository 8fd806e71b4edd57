import ShiftReduce.Proofs.Engine.Atomic
import ShiftReduce.Proofs.Engine.Twin

namespace ShiftReduce

section Providers

variable {S T P V σ : Type}

/-- The answers depend on the production and on what can be seen of its arguments alone. -/
def Provider.Functional (p : Provider S T P V σ) : Prop :=
  ∀ production {args args' : Args S V} (c c' : σ), args.contents = args'.contents →
    outcome (p.reduce production args c) = outcome (p.reduce production args' c')

inductive Exchange (S T P V : Type) : Type
  | reduce (production : P) (arguments : List (Option V × Option (List V) × Option (Option V)))
  | syntaxError (e : SyntaxError S T)
  | stackOverflow (e : StackError)

namespace Exchange

def of? : Notice S T P V → Option (Exchange S T P V)
  | .syntaxError e => some (.syntaxError e)
  | .stackOverflow e => some (.stackOverflow e)
  | _ => none

def alarming : Exchange S T P V → Bool
  | .reduce _ _ => false
  | .syntaxError _ | .stackOverflow _ => true

end Exchange

def Provider.logged (p : Provider S T P V σ) :
    Provider S T P V (σ × List (Exchange S T P V)) where
  reduce production args c :=
    match p.reduce production args c.1 with
    | .ok v u => .ok v (u, c.2 ++ [.reduce production args.contents])
    | .error halt u => .error halt (u, c.2 ++ [.reduce production args.contents])
  notify notice c := (p.notify notice c.1, c.2 ++ (Exchange.of? notice).toList)

theorem Provider.logged_reduce (p : Provider S T P V σ) (production : P) (args : Args S V)
    (c : σ × List (Exchange S T P V)) :
    outcome (p.logged.reduce production args c) = outcome (p.reduce production args c.1) ∧
      (remains (p.logged.reduce production args c)).2 =
        c.2 ++ [.reduce production args.contents] := by
  have hlogged : p.logged.reduce production args c =
      match p.reduce production args c.1 with
      | .ok v u => .ok v (u, c.2 ++ [.reduce production args.contents])
      | .error halt u => .error halt (u, c.2 ++ [.reduce production args.contents]) := rfl
  rw [hlogged]
  cases p.reduce production args c.1 with
  | ok v u => exact ⟨rfl, rfl⟩
  | error halt u => exact ⟨rfl, rfl⟩

end Providers

structure View (S V : Type) where
  frames : List (Frame S V)
  accepted : Bool
  failed : Bool
  value : Option V
  stats : Stats

def Session.view {S V σ : Type} (s : Session S V σ) : View S V :=
  ⟨s.stack.frames, s.accepted, s.failed, Engine.accepted? s, s.stats⟩

/-- A configuration that allows what `c` allows. Recovery is no matter, nor is the end token. -/
structure Config.Within {T : Type} (c c' : Config T) : Prop where
  ebnf : c.ebnf = true → c'.ebnf = true
  capacity : Comparison.Roomier c.capacity c'.capacity

namespace Engine

variable {S T N P V σ : Type} [Inhabited V]

def logged (e : Engine S T N P V σ) : Engine S T N P V (σ × List (Exchange S T P V)) :=
  { table := e.table, provider := e.provider.logged, config := e.config, reach := e.reach,
    frameSize := e.frameSize }

def under (e : Engine S T N P V σ) (config : Config T) : Engine S T N P V σ := { e with config }

section Posts

variable {α : Type}

def posts [DecidableEq T] (e : Engine S T N P V σ) :
    List (T × V) → Session S V σ → List (EStateM.Result (Halt Fault) (Session S V σ) Bool)
  | [], _ => []
  | (token, value) :: rest, s =>
    e.post token value s :: e.posts rest (final (e.post token value s))

def seen (r : EStateM.Result (Halt Fault) (Session S V (σ × List (Exchange S T P V))) α) :
    Except (Halt Fault) α × View S V × List (Exchange S T P V) :=
  (outcome r, (final r).view, (final r).client.2)

structure Quiet (r : EStateM.Result (Halt Fault) (Session S V (σ × List (Exchange S T P V))) α) :
    Prop where
  reported : ∀ exchange ∈ (final r).client.2, exchange.alarming = false
  raised : ∀ label, outcome r ≠ .error (.raised (.ebnfDisabled label))

omit [Inhabited V] in
theorem quiet_of_isOk
    {r : EStateM.Result (Halt Fault) (Session S V (σ × List (Exchange S T P V))) α}
    (hok : isOk r = true)
    (hreported : ((final r).client.2.all fun exchange => !exchange.alarming) = true) : Quiet r := by
  refine ⟨fun exchange hmem => ?_, fun label hraised => ?_⟩
  · have hcalm := List.all_eq_true.mp hreported exchange hmem
    rwa [Bool.not_eq_true'] at hcalm
  · cases r with
    | ok a t => cases hraised
    | error halt t => cases hok

end Posts

end Engine

namespace Comparison

variable {S T N P V σ α : Type} {C : Comparison S T N P V σ}

theorem Twins.view_eq {s s' : Session S V σ} (h : C.Twins s s') : s'.view = s.view := by
  cases h
  rfl

theorem Twins.capacity_eq {s s' : Session S V σ} (h : C.Twins s s') :
    s.stack.capacity = C.engine.config.capacity := by
  cases h
  rfl

theorem Twins.alike {s s' : Session S V σ} (h : C.Twins s s') : C.Alike s.client s'.client := by
  cases h with
  | intro s halike => exact halike

theorem Tracks.answers {r r' : EStateM.Result (Halt Fault) (Session S V σ) α} (h : C.Tracks r r')
    (halarmed : ¬ C.Alarmed (Engine.final r).client)
    (hexcused : ∀ f t, r = .error (.raised f) t → ¬ C.Excused f) :
    outcome r' = outcome r ∧ C.Twins (Engine.final r) (Engine.final r') := by
  cases h with
  | answered ht => exact ⟨rfl, ht⟩
  | halted ht => exact ⟨rfl, ht⟩
  | alarmed h => exact absurd h halarmed
  | excused h => exact absurd h (hexcused _ _ rfl)

end Comparison

namespace Engine

variable {S T N P V σ α : Type}

def besides (e : Engine S T N P V σ) (config : Config T) :
    Comparison S T N P V (σ × List (Exchange S T P V)) where
  engine := e.logged
  config := config
  Alike c c' := c.2 = c'.2
  Alarmed c := ∃ exchange ∈ c.2, exchange.alarming = true
  Excused f := ∃ label, f = .ebnfDisabled label

variable {e : Engine S T N P V σ} {config : Config T}

theorem besides_keeps : (e.besides config).engine.Keeps fun c _ => (e.besides config).Alarmed c := by
  have happend : ∀ {log : List (Exchange S T P V)} (rest : List (Exchange S T P V)),
      (∃ exchange ∈ log, exchange.alarming = true) →
        ∃ exchange ∈ log ++ rest, exchange.alarming = true :=
    fun _ ⟨exchange, hmem, halarming⟩ => ⟨exchange, List.mem_append_left _ hmem, halarming⟩
  refine ⟨fun _ _ _ hc => happend _ hc, fun production args c _ hc => ?_, fun _ _ _ hc => happend _ hc,
    fun _ _ _ hc => happend _ hc⟩
  obtain ⟨-, hlog⟩ := e.provider.logged_reduce production args c
  show ∃ exchange ∈ (remains (e.provider.logged.reduce production args c)).2, _
  rw [hlog]
  exact happend _ hc

theorem besides_fair (hp : e.provider.Functional) (hconfig : e.config.Within config) :
    (e.besides config).Fair where
  keeps := besides_keeps
  called := by
    intro production args args' u u' hcontents hu
    have hu : u.2 = u'.2 := hu
    obtain ⟨hanswer, hlog⟩ := e.provider.logged_reduce production args u
    obtain ⟨hanswer', hlog'⟩ := e.provider.logged_reduce production args' u'
    refine ⟨?_, ?_⟩
    · exact hanswer'.trans ((hp production u'.1 u.1 hcontents.symm).trans hanswer.symm)
    · show (remains (e.provider.logged.reduce production args u)).2 =
        (remains (e.provider.logged.reduce production args' u')).2
      rw [hlog, hlog', hcontents, hu]
  told notice u u' hu := congrArg (· ++ _) hu
  deciding _ _ _ _ _ hu := congrArg (· ++ _) hu
  ebnf := by
    cases hebnf : config.ebnf with
    | true => exact .inr ⟨hebnf, fun label => ⟨label, rfl⟩⟩
    | false =>
      refine .inl (hebnf.trans (Bool.eq_false_iff.mpr fun hon => ?_).symm)
      exact absurd (hebnf.symm.trans (hconfig.ebnf hon)) Bool.false_ne_true
  overflow := .inr ⟨hconfig.capacity, fun err u =>
    ⟨.stackOverflow err, List.mem_append_right _ (List.mem_singleton_self _), rfl⟩⟩
  recovery := .inr ⟨fun err u =>
      ⟨.stackOverflow err, List.mem_append_right _ (List.mem_singleton_self _), rfl⟩,
    fun err u => ⟨.syntaxError err, List.mem_append_right _ (List.mem_singleton_self _), rfl⟩⟩

variable [Inhabited V]

omit [Inhabited V] in
theorem Quiet.seen_eq
    {r r' : EStateM.Result (Halt Fault) (Session S V (σ × List (Exchange S T P V))) α}
    (hr : Quiet r) (h : (e.besides config).Tracks r r') :
    seen r' = seen r ∧ (e.besides config).Twins (final r) (final r') := by
  have hunalarmed : ¬ (e.besides config).Alarmed (final r).client := by
    rintro ⟨exchange, hmem, halarming⟩
    exact absurd ((hr.reported exchange hmem).symm.trans halarming) Bool.false_ne_true
  obtain ⟨hanswer, htwins⟩ := h.answers hunalarmed <| by
    rintro f t rfl ⟨label, rfl⟩
    exact hr.raised label rfl
  have hlog : (final r).client.2 = (final r').client.2 := htwins.alike
  refine ⟨?_, htwins⟩
  rw [seen, seen, hanswer, htwins.view_eq, hlog]

theorem posts_seen [DecidableEq T] (h : (e.besides config).Fair) (tokens : List (T × V))
    {s s' : Session S V (σ × List (Exchange S T P V))} (hs : (e.besides config).Twins s s')
    (hquiet : ∀ r ∈ e.logged.posts tokens s, Quiet r) :
    ((e.under config).logged.posts tokens s').map seen = (e.logged.posts tokens s).map seen := by
  induction tokens generalizing s s' with
  | nil => rfl
  | cons posted rest ih =>
    have hpost := h.post posted.1 posted.2 s s' hs
    obtain ⟨hseen, htwins⟩ := (hquiet _ (List.mem_cons_self ..)).seen_eq hpost
    have hrest := ih htwins fun r hr => hquiet r (List.mem_cons_of_mem _ hr)
    exact congrArg₂ List.cons hseen hrest

/-- Under options that allow as much, a run that is quiet answers the same to every post, with the
same left to see and the same calls of the provider. The storage of the stacks is left aside, as an
engine that cannot reserve its own has no posts. -/
theorem posts_within [DecidableEq T] (hp : e.provider.Functional)
    (hconfig : e.config.Within config) (client : σ) (tokens : List (T × V))
    (hbegin : Quiet (e.logged.begin (client, [])))
    (hquiet : ∀ r ∈ e.logged.posts tokens (final (e.logged.begin (client, []))), Quiet r) :
    seen ((e.under config).logged.begin (client, [])) = seen (e.logged.begin (client, [])) ∧
      ((e.under config).logged.posts tokens
          (final ((e.under config).logged.begin (client, [])))).map seen =
        (e.logged.posts tokens (final (e.logged.begin (client, [])))).map seen := by
  have hfair := besides_fair hp hconfig
  have hnew : (e.besides config).Twins (e.logged.blank (client, []))
      ((e.under config).logged.blank (client, [])) :=
    .intro (C := e.besides config) ⟨.empty none, (client, []), false, false, none, {}⟩ rfl
  obtain ⟨hseen, htwins⟩ := hbegin.seen_eq (hfair.reset _ _ hnew)
  exact ⟨hseen, posts_seen hfair tokens htwins hquiet⟩

end Engine

namespace Calculator

variable {σ : Type}

theorem Request.of?_contents {args args' : Operands} (h : args.contents = args'.contents)
    (production : Production) : of? args production = of? args' production := by
  have hread : ∀ i, (args.get? i, args.sequence? i, args.optional? i) =
      (args'.get? i, args'.sequence? i, args'.optional? i) := fun i => by
    rw [← args.contents_getD, ← args'.contents_getD, h]
  have hget : args.get? = args'.get? := funext fun i => (Prod.mk.inj (hread i)).1
  have hsequence : args.sequence? = args'.sequence? :=
    funext fun i => (Prod.mk.inj (Prod.mk.inj (hread i)).2).1
  cases production <;>
    simp only [of?, program?, unary?, binary?, copy?, call?, number?, hget, hsequence]

theorem provider_functional {actions : Actions σ}
    (h : ∀ call u u', outcome (actions.perform call u) = outcome (actions.perform call u')) :
    (provider actions).Functional := by
  intro production args args' c c' hcontents
  show outcome (Client.reduce actions production args c) =
    outcome (Client.reduce actions production args' c')
  rw [Client.reduce, Client.reduce, Request.of?_contents hcontents]
  rcases Request.of? args' production with _ | _ | v | call
  · rfl
  · rfl
  · rfl
  · have hanswer := h call c.user c'.user
    dsimp only
    revert hanswer
    cases actions.perform call c.user <;> cases actions.perform call c'.user <;>
      rintro ⟨⟩ <;> rfl

theorem stock_functional : stock.provider.Functional := by
  refine provider_functional fun call u u' => ?_
  cases call <;> rfl

end Calculator

namespace Engine

section Example

open Calculator (stock Client State Terminal Nonterminal Production Value)

def confined : Engine State Terminal Nonterminal Production Value (Client Unit) :=
  stock.under { Calculator.defaultConfig with capacity := some 5 }

def roomy : Config Terminal := ⟨true, none, .comma, none⟩

def product : List (Terminal × Value) :=
  [(.int, .number 2), (.asterisk, .nothing), (.int, .number 3), (.semicolon, .nothing),
    (.eof, .nothing)]

theorem posts_within_product :
    confined.provider.Functional ∧ confined.config.Within roomy ∧
      (∀ r ∈ confined.logged.posts product (final (confined.logged.begin (.new (), []))),
        Quiet r) ∧
      (confined.logged.posts product (final (confined.logged.begin (.new (), [])))).map outcome =
        [.ok false, .ok false, .ok false, .ok false, .ok true] ∧
      ((confined.under roomy).logged.posts product
          (final ((confined.under roomy).logged.begin (.new (), [])))).map seen =
        (confined.logged.posts product (final (confined.logged.begin (.new (), [])))).map seen := by
  have hquiet : ∀ r ∈ confined.logged.posts product (final (confined.logged.begin (.new (), []))),
      Quiet r := by
    have hall : (confined.logged.posts product
        (final (confined.logged.begin (.new (), [])))).all (fun r =>
          isOk r && (final r).client.2.all fun exchange => !exchange.alarming) = true := by
      decide +kernel
    intro r hr
    have hr := List.all_eq_true.mp hall r hr
    rw [Bool.and_eq_true] at hr
    exact quiet_of_isOk hr.1 hr.2
  have hbegin : Quiet (confined.logged.begin (.new (), [])) :=
    quiet_of_isOk (by decide +kernel) (by decide +kernel)
  have hwithin : confined.config.Within roomy := ⟨fun _ => rfl, trivial⟩
  refine ⟨Calculator.stock_functional, hwithin, hquiet, by decide +kernel, ?_⟩
  exact (posts_within (e := confined) Calculator.stock_functional hwithin (.new ()) product hbegin
    hquiet).2

end Example

end Engine

end ShiftReduce
