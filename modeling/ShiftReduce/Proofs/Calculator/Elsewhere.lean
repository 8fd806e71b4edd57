import ShiftReduce.Proofs.Calculator.Append
import ShiftReduce.Proofs.Calculator.Calculation
import ShiftReduce.Proofs.Calculator.Layout
import ShiftReduce.Proofs.Calculator.Reuse
import ShiftReduce.Proofs.Engine.Options

namespace ShiftReduce.Calculator

variable {σ α : Type} {actions : Actions σ} {config : Config Terminal}

section Unplaced

def Diagnostic.unplaced (d : Diagnostic) : Diagnostic := { d with span := ⟨0, 0⟩ }

def Error.unplaced : Error → Error
  | .character _ text => .character ⟨0, 0⟩ text
  | .rejected ds => .rejected (ds.map Diagnostic.unplaced)
  | e => e

def Outcome.unplaced (o : Outcome) : Outcome :=
  { o with diagnostics := o.diagnostics.map Diagnostic.unplaced }

def unplaced : EStateM.Result (Halt Error) (Session σ) Outcome → Except (Halt Error) Outcome
  | .ok o _ => .ok o.unplaced
  | .error (.raised e) _ => .error (.raised e.unplaced)
  | .error halt _ => .error halt

end Unplaced

structure Client.Alike (c d : Client σ) : Prop where
  user_eq : d.user = c.user
  diagnostics_eq : d.diagnostics.map Diagnostic.unplaced = c.diagnostics.map Diagnostic.unplaced
  failure_eq : d.failure = c.failure

namespace Client.Alike

variable {c d : Client σ}

theorem refl (c : Client σ) : c.Alike c := ⟨rfl, rfl, rfl⟩

theorem report (h : c.Alike d) (message : String) :
    (c.report message).Alike (d.report message) where
  user_eq := h.user_eq
  diagnostics_eq := by
    rw [Client.report, Client.report, List.map_append, List.map_append, h.diagnostics_eq]
    rfl
  failure_eq := h.failure_eq

theorem watch (h : c.Alike d) (hsilent : actions.Silent) (event event' : Event) :
    Client.Alike { c with user := actions.watch event c.user }
      { d with user := actions.watch event' d.user } := by
  rw [hsilent, hsilent]
  exact h

theorem notify (h : c.Alike d) (hsilent : actions.Silent) (notice : EngineNotice) :
    (c.notify actions notice).Alike (d.notify actions notice) := by
  have hwatched := h.watch hsilent (.notice notice c.span) (.notice notice d.span)
  cases notice with
  | syntaxError e => exact hwatched.report _
  | stackOverflow e => exact hwatched.report _
  | _ => exact hwatched

theorem reduce (h : c.Alike d) (production : Production) {args args' : Operands}
    (hcontents : args.contents = args'.contents) :
    outcome (Client.reduce actions production args' d) =
        outcome (Client.reduce actions production args c) ∧
      (remains (Client.reduce actions production args c)).Alike
        (remains (Client.reduce actions production args' d)) := by
  rw [Client.reduce, Client.reduce, Request.of?_contents hcontents]
  rcases Request.of? args' production with _ | e | v | call
  · exact ⟨rfl, h⟩
  · exact ⟨rfl, h.user_eq, h.diagnostics_eq, rfl⟩
  · exact ⟨rfl, h⟩
  · dsimp only
    rw [h.user_eq]
    cases actions.perform call c.user with
    | ok v user => exact ⟨rfl, rfl, h.diagnostics_eq, h.failure_eq⟩
    | error e user => exact ⟨rfl, rfl, h.diagnostics_eq, rfl⟩

end Client.Alike

def elsewhere (actions : Actions σ) (config : Config Terminal) :
    Comparison State Terminal Nonterminal Production Value (Client σ) where
  engine := engine actions config
  config := config
  Alike := Client.Alike
  Alarmed _ := False
  Excused _ := False

theorem elsewhere_fair (hsilent : actions.Silent) : (elsewhere actions config).Fair where
  keeps := .never _
  called production _ _ _ _ hcontents halike := halike.reduce production hcontents
  told notice _ _ halike := halike.notify hsilent notice
  deciding _ _ _ _ _ halike := halike.watch hsilent _ _
  ebnf := .inl rfl
  overflow := .inl rfl
  recovery := .inl ⟨rfl, rfl⟩

section Runs

variable {s s' : Session σ}

inductive Level (actions : Actions σ) (config : Config Terminal) :
    EStateM.Result (Halt Error) (Session σ) α → EStateM.Result (Halt Error) (Session σ) α → Prop
  | answered {a t t'} : (elsewhere actions config).Twins t t' →
      Level actions config (.ok a t) (.ok a t')
  | halted {halt t t'} : (elsewhere actions config).Twins t t' →
      Level actions config (.error halt t) (.error halt t')

theorem twins_alike (h : (elsewhere actions config).Twins s s') : s.client.Alike s'.client := by
  cases h with
  | intro _ halike => exact halike

theorem twins_attend (h : (elsewhere actions config).Twins s s') {c d : Client σ}
    (halike : c.Alike d) :
    (elsewhere actions config).Twins { s with client := c } { s' with client := d } := by
  cases h with
  | intro s _ => exact .intro s halike

theorem surface_level (h : (elsewhere actions config).Twins s s') (f : Fault) :
    Level actions config (surface f s : EStateM.Result (Halt Error) (Session σ) α)
      (surface f s') := by
  have halike := twins_alike h
  rw [surface, surface, halike.failure_eq]
  cases s.client.failure with
  | none => exact .halted h
  | some e => exact .halted (twins_attend h ⟨halike.user_eq, halike.diagnostics_eq, rfl⟩)

theorem liftRun_level {run : Run State Value (Client σ) α}
    (h : (elsewhere actions config).Tracks (run s) (run s')) :
    Level actions config (liftRun run s) (liftRun run s') := by
  rw [liftRun, liftRun]
  generalize run s = r at h
  generalize run s' = r' at h
  cases h with
  | answered ht => exact .answered ht
  | @halted halt t t' ht =>
    cases halt with
    | raised f => exact surface_level ht f
    | crash => exact .halted ht
    | exhausted => exact .halted ht
  | alarmed halarmed => exact halarmed.elim
  | excused hexcused => exact hexcused.elim

theorem postToken_level (hsilent : actions.Silent) (h : (elsewhere actions config).Twins s s')
    {l l' : Token} (hterminal : l'.terminal = l.terminal) (hvalue : l'.value = l.value) :
    Level actions config (postToken actions config l s) (postToken actions config l' s') := by
  have hlocated : (elsewhere actions config).Twins (located actions l s) (located actions l' s') :=
    have hwatched := (twins_alike h).watch hsilent (.token l.terminal l.span)
      (.token l'.terminal l'.span)
    twins_attend h ⟨hwatched.user_eq, hwatched.diagnostics_eq, hwatched.failure_eq⟩
  have hfair : (elsewhere actions config).Fair := elsewhere_fair hsilent
  obtain ⟨terminal, value, span⟩ := l
  obtain ⟨terminal', value', span'⟩ := l'
  cases hterminal
  cases hvalue
  exact liftRun_level (hfair.post terminal value _ _ hlocated)

theorem feed_level (hsilent : actions.Silent) {w : Word} {ls ls' : List Lexeme}
    (hls : ls.map item = w.map .ok) (hls' : ls'.map item = w.map .ok)
    (h : (elsewhere actions config).Twins s s') :
    Level actions config (feed actions config ls s) (feed actions config ls' s') := by
  induction w generalizing ls ls' s s' with
  | nil =>
    rw [List.map_eq_nil_iff.mp hls, List.map_eq_nil_iff.mp hls']
    exact .answered h
  | cons tv w ih =>
    obtain ⟨l, rest, rfl, hterminal, hvalue, hrest⟩ := exists_token hls
    obtain ⟨l', rest', rfl, hterminal', hvalue', hrest'⟩ := exists_token hls'
    have hpost : Level actions config (postToken actions config l s) _ := postToken_level hsilent h
      (hterminal'.trans hterminal.symm) (hvalue'.trans hvalue.symm)
    rw [feed, feed]
    generalize hrun : postToken actions config l s = r at hpost
    generalize hrun' : postToken actions config l' s' = r' at hpost
    cases hpost with
    | @answered closed t t' ht =>
      rw [Engine.bind_of_ok hrun, Engine.bind_of_ok hrun']
      cases closed with
      | true => exact .answered ht
      | false => exact ih hrest hrest' ht
    | halted ht =>
      rw [Engine.bind_of_error hrun, Engine.bind_of_error hrun']
      exact .halted ht

theorem conclude_unplaced (h : (elsewhere actions config).Twins s s') :
    unplaced (conclude s') = unplaced (conclude s) := by
  obtain ⟨t, -, -, hrun⟩ := conclude_run s
  obtain ⟨t', -, -, hrun'⟩ := conclude_run s'
  have hdiagnostics := (twins_alike h).diagnostics_eq
  have haccepted : Engine.accepted? s' = Engine.accepted? s := by
    cases h
    rfl
  rw [hrun, hrun', haccepted]
  cases Engine.accepted? s with
  | none =>
    dsimp only [unplaced, Error.unplaced]
    rw [hdiagnostics]
  | some v =>
    cases v with
    | program results =>
      dsimp only [unplaced, Outcome.unplaced]
      rw [hdiagnostics]
    | _ => rfl

end Runs

theorem Visited.capacity_eq {s : Session σ} (h : Visited actions config s) :
    s.stack.capacity = config.capacity := by
  induction h with
  | start user =>
    rw [Calculator.start, Engine.final_start]
    exact Engine.reset_capacity (engine actions config) _
  | post _ _ ih => exact (Engine.post_capacity (engine actions config) _ _ _).trans ih
  | reset _ ih => exact (Engine.reset_capacity (engine actions config) _).trans ih
  | take _ ih =>
    rw [Engine.take_run]
    split <;> exact ih
  | attend client _ ih => exact ih

theorem opening_roams : Roams actions config (opening actions config) :=
  (Roams.liftRun fun _ hs => .reset hs).bind fun _ => modifyClient_roams _

theorem parse_unplaced (hsilent : actions.Silent) {s : Session σ} (hs : Visited actions config s)
    {source source' : String} {w : Word} (h : Spells source w) (h' : Spells source' w) :
    unplaced (parse actions config source' s) = unplaced (parse actions config source s) := by
  have hopened := opening_roams s hs
  rw [Spells, eof, ← List.map_singleton, ← List.map_append] at h h'
  rw [parse_eq, parse_eq]
  cases hopening : opening actions config s with
  | error halt t => rw [Engine.bind_of_error hopening, Engine.bind_of_error hopening]
  | ok _ t =>
    rw [hopening] at hopened
    rw [Engine.bind_of_ok hopening, Engine.bind_of_ok hopening]
    have hcapacity : t.stack.capacity = config.capacity := hopened.capacity_eq
    have htwins : (elsewhere actions config).Twins t t :=
      .of_capacity hcapacity hcapacity (.refl t.client)
    have hfeed : Level actions config (feed actions config (lexemes source) t) _ :=
      feed_level hsilent h h' htwins
    generalize hrun : feed actions config (lexemes source) t = r at hfeed
    generalize hrun' : feed actions config (lexemes source') t = r' at hfeed
    cases hfeed with
    | answered ht =>
      rw [Engine.bind_of_ok hrun, Engine.bind_of_ok hrun']
      exact conclude_unplaced ht
    | @halted halt _ _ ht =>
      rw [Engine.bind_of_error hrun, Engine.bind_of_error hrun']
      cases halt <;> rfl

open Lexer (Layout Line ending) in
/-- Reading a layout gives the tokens of its word and the end, each token at the place where it is
written. In any session that may be met, all layouts of a word come to the same, except for the
places in it. -/
theorem parse_layout (hsilent : actions.Silent) {s : Session σ} (hs : Visited actions config s)
    (layout : Layout) :
    lexemes layout.source = layout.tokens.map .ok ++ [ending layout.source.utf8ByteSize] ∧
    List.Forall₂ (fun w t => Line.Stands 0 layout.source.toList w t)
      layout.line layout.tokens ∧
    ∀ other : Layout, other.word = layout.word →
      unplaced (parse actions config other.source s) =
        unplaced (parse actions config layout.source s) := by
  refine ⟨layout.lexemes_source, layout.tokens_stand, fun other hword => ?_⟩
  have hspells := other.spells
  rw [hword] at hspells
  exact parse_unplaced hsilent hs layout.spells hspells

section Example

open Lexer (Layout Written Separator)

def number (zeros n : Nat) (h : n < tooLarge) (after : List Separator) : Written :=
  ⟨(.int, .number n), _, .int zeros h, after⟩

def sign (t : Terminal) (h : t ∈ Lexer.punctuation) (after : List Separator) : Written :=
  ⟨(t, .nothing), _, .mark h, after⟩

def space : Separator := .blank ' ' (by decide)

def remark : Separator := .comment ['é', ';', '1'] (by decide)

def narrow : Layout where
  lead := []
  line := [number 0 1 (by decide) [space], sign .plus (by decide) [space],
    number 0 2 (by decide) [space], sign .semicolon (by decide) []]
  apart := by decide

def broad : Layout where
  lead := [remark]
  line := [number 2 1 (by decide) [remark, space], sign .plus (by decide) [remark],
    number 0 2 (by decide) [space, space], sign .semicolon (by decide) [remark]]
  apart := by decide

theorem parse_layout_broad :
    narrow.source = "1 + 2 ;" ∧
    broad.source = "#é;1\n001#é;1\n +#é;1\n2  ;#é;1\n" ∧
    (answer? (parse Evaluator.actions defaultConfig narrow.source
      (served Evaluator.actions defaultConfig () ["1 +"]))).map Outcome.results = some [some 3] ∧
    unplaced (parse Evaluator.actions defaultConfig broad.source
      (served Evaluator.actions defaultConfig () ["1 +"])) =
    unplaced (parse Evaluator.actions defaultConfig narrow.source
      (served Evaluator.actions defaultConfig () ["1 +"])) := by
  refine ⟨by decide, by decide, by decide +kernel, ?_⟩
  exact (parse_layout Evaluator.silent (served_visited () ["1 +"]) narrow).2.2 broad (by decide)

end Example

end ShiftReduce.Calculator
