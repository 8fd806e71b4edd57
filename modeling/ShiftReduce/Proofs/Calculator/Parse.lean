import ShiftReduce.Proofs.Calculator.Observed

namespace ShiftReduce.Calculator

def Legible : Lexeme → Prop
  | .ok t => Shaped t.terminal t.value
  | .error e => e.Expected

namespace Lexer

theorem numeral_legible (digits : List Char) (span : Span) : Legible (numeral digits span) := by
  rw [numeral]
  split
  · exact .int _
  · trivial

theorem punctuation?_mark {c : Char} {t : Terminal} (h : punctuation? c = some t) :
    t ≠ .int ∧ t ≠ .ident := by
  unfold punctuation? at h
  split at h <;> cases h <;> exact ⟨nofun, nofun⟩

theorem symbol_legible (c : Char) (span : Span) : Legible (symbol c span) := by
  rw [symbol]
  split
  next t ht => exact .mark (punctuation?_mark ht).1 (punctuation?_mark ht).2
  · trivial

inductive Formed : Lexeme → Prop
  | numeral (digits span) : Formed (numeral digits span)
  | name (name span) : Formed (.ok ⟨.ident, .name name, span⟩)
  | symbol (c span) : Formed (symbol c span)
  | eof (span) : Formed (.ok ⟨.eof, .nothing, span⟩)

theorem scan_formed (pos : Nat) (cs : List Char) : ∀ l ∈ scan pos cs, Formed l := by
  induction pos, cs using scan.induct with
  | case1 pos =>
    rw [scan]
    exact List.forall_mem_singleton.mpr (.eof _)
  | case2 pos c cs hblank ih =>
    rw [scan, if_pos hblank]
    exact ih
  | case3 pos cs comment hblank ih =>
    rw [scan, if_neg hblank, if_pos rfl]
    exact ih
  | case4 pos c cs hblank hcomment hdigit digits stop ih =>
    rw [scan, if_neg hblank, if_neg hcomment, if_pos hdigit]
    exact List.forall_mem_cons.mpr ⟨.numeral _ _, ih⟩
  | case5 pos c cs hblank hcomment hdigit hname letters stop ih =>
    rw [scan, if_neg hblank, if_neg hcomment, if_neg hdigit, if_pos hname]
    exact List.forall_mem_cons.mpr ⟨.name _ _, ih⟩
  | case6 pos c cs hblank hcomment hdigit hname stop ih =>
    rw [scan, if_neg hblank, if_neg hcomment, if_neg hdigit, if_neg hname]
    exact List.forall_mem_cons.mpr ⟨.symbol _ _, ih⟩

theorem Formed.legible {l : Lexeme} (h : Formed l) : Legible l := by
  cases h with
  | numeral digits span => exact numeral_legible digits span
  | name name span => exact .ident name
  | symbol c span => exact symbol_legible c span
  | eof span => exact .mark nofun nofun

theorem scan_legible (pos : Nat) (cs : List Char) : ∀ l ∈ scan pos cs, Legible l :=
  fun l hl => (scan_formed pos cs l hl).legible

end Lexer

variable {σ α β : Type} {actions : Actions σ} {config : Config Terminal} {I : σ → Prop}

inductive Concludes (I : σ → Prop) (Q : α → Session σ → Prop) :
    EStateM.Result (Halt Error) (Session σ) α → Prop
  | ok {a s} : Q a s → Concludes I Q (.ok a s)
  | raised {e s} : e.Expected → Usable I s → Concludes I Q (.error (.raised e) s)

theorem Concludes.bind {Q : α → Session σ → Prop} {R : β → Session σ → Prop} {x : Calculation σ α}
    {f : α → Calculation σ β} {s : Session σ} (h : Concludes I Q (x s))
    (hf : ∀ a t, Q a t → Concludes I R (f a t)) : Concludes I R ((x >>= f) s) := by
  simp only [Bind.bind, EStateM.bind]
  generalize x s = r at h
  cases h with
  | ok hQ => exact hf _ _ hQ
  | raised he hs => exact .raised he hs

theorem Concludes.final {r : EStateM.Result (Halt Error) (Session σ) α}
    (h : Concludes I (fun _ => Usable I) r) : Usable I (Engine.final r) := by
  cases h with
  | ok hs => exact hs
  | raised _ hs => exact hs

theorem liftRun_ok {run : Run State Value (Client σ) α} {s t : Session σ} {a : α}
    (h : run s = .ok a t) : liftRun run s = .ok a t := by
  rw [liftRun, h]

theorem ok_of_liftRun {run : Run State Value (Client σ) α} {s t : Session σ} {a : α}
    (h : liftRun run s = .ok a t) : run s = .ok a t := by
  rw [liftRun] at h
  split at h
  next hrun =>
    cases h
    exact hrun
  next f u _ =>
    rw [surface] at h
    split at h <;> cases h
  next => cases h
  next => cases h

def located (actions : Actions σ) (l : Token) (s : Session σ) : Session σ :=
  { s with client := { s.client with
    user := actions.watch (.token l.terminal l.span) s.client.user, span := l.span } }

theorem postToken_of_post {l : Token} {closed : Bool} {s t : Session σ}
    (h : (engine actions config).post l.terminal l.value (located actions l s) = .ok closed t) :
    postToken actions config l s = .ok closed t := liftRun_ok h

theorem postToken_of_raised {l : Token} {s t : Session σ} {f : Fault} {e : Error}
    (h : (engine actions config).post l.terminal l.value (located actions l s) =
      .error (.raised f) t) (hfailure : t.client.failure = some e) :
    postToken actions config l s =
      .error (.raised e) { t with client := { t.client with failure := none } } := by
  have hlift : postToken actions config l s =
      liftRun ((engine actions config).post l.terminal l.value) (located actions l s) := rfl
  rw [hlift, liftRun, h]
  dsimp only
  rw [surface, hfailure]

theorem Ends.liftRun {Q : α → Session σ → Prop} {run : Run State Value (Client σ) α}
    {s : Session σ} (h : Ends I Q (run s)) : Concludes I Q (liftRun run s) := by
  rw [Calculator.liftRun]
  generalize run s = r at h
  cases h with
  | ok hQ => exact .ok hQ
  | @raised f t ht =>
    obtain ⟨e, hfailure, he⟩ := ht.failure
    dsimp only
    rw [surface, hfailure]
    exact .raised he ⟨ht.user, ht.room⟩

section Steps

variable {s : Session σ}

theorem postToken_concludes (hsafe : actions.Safe I) (hconfig : Sane config) {t : Token}
    (ht : Shaped t.terminal t.value) (hs : Sound I s) (hopen : s.closed = false) :
    Concludes I (fun closed t => Sound I t ∧ t.closed = closed) (postToken actions config t s) := by
  have huser : I (actions.watch (.token t.terminal t.span) s.client.user) :=
    hsafe.watched _ _ hs.user
  have hends := post_ends hsafe hconfig ht (s := { s with client := { s.client with
    user := actions.watch (.token t.terminal t.span) s.client.user, span := t.span } })
    ⟨⟨huser, hs.room⟩, hs.failure_eq, hs.typed, hs.result⟩ hopen
  exact hends.liftRun

theorem feed_concludes (hsafe : actions.Safe I) (hconfig : Sane config) {lexemes : List Lexeme}
    (hlexemes : ∀ l ∈ lexemes, Legible l) (hs : Sound I s) (hopen : s.closed = false) :
    Concludes I (fun _ => Sound I) (feed actions config lexemes s) := by
  induction lexemes generalizing s with
  | nil => exact .ok hs
  | cons l rest ih =>
    obtain ⟨hl, hrest⟩ := List.forall_mem_cons.mp hlexemes
    cases l with
    | error e => exact .raised hl hs.toUsable
    | ok t =>
      refine (postToken_concludes hsafe hconfig hl hs hopen).bind fun closed u hu => ?_
      cases closed with
      | true => exact .ok hu.1
      | false => exact ih hrest hu.1 hu.2

theorem take_concludes (hs : Sound I s) :
    Concludes I (fun v t => Usable I t ∧ ∀ v', v = some v' → ∃ results, v' = .program results)
      (liftRun Engine.take s) := by
  have htake := Engine.take_run s
  cases haccepted : Engine.accepted? s with
  | none =>
    rw [haccepted] at htake
    rw [liftRun_ok htake]
    exact .ok ⟨hs.toUsable, nofun⟩
  | some v =>
    rw [haccepted] at htake
    rw [liftRun_ok htake]
    refine .ok ⟨⟨hs.user, hs.room⟩, ?_⟩
    rintro v' ⟨⟩
    rw [Engine.accepted?] at haccepted
    split at haccepted
    · exact hs.result v haccepted
    · cases haccepted

def answerTo (diagnostics : List Diagnostic) : Option Value → Calculation σ Outcome
  | some (.program results) => pure ⟨results, diagnostics⟩
  | some v => throw (.raised (.typeMismatch "program" v.kind))
  | none => throw (.raised (.rejected diagnostics))

theorem conclude_eq (s : Session σ) : conclude s =
    (liftRun Engine.take >>= answerTo s.client.diagnostics)
      { s with client := { s.client with diagnostics := [] } } := rfl

theorem conclude_concludes (hs : Sound I s) : Concludes I (fun _ => Usable I) (conclude s) := by
  rw [conclude_eq]
  have hcleared : Sound I { s with client := { s.client with diagnostics := [] } } :=
    ⟨⟨hs.user, hs.room⟩, hs.failure_eq, hs.typed, hs.result⟩
  refine (take_concludes hcleared).bind fun v t ht => ?_
  cases v with
  | none => exact .raised trivial ht.1
  | some v =>
    obtain ⟨results, rfl⟩ := ht.2 v rfl
    exact .ok ht.1

theorem parse_begins (actions : Actions σ) (config : Config Terminal)
    (hroom : Stack.HasRoom s.stack.capacity 0) (source : String) :
    ∃ t, parse actions config source s =
        (feed actions config (lexemes source) >>= fun _ => conclude) t ∧
      (engine actions config).Fresh t ∧ t.Settled ∧ t.stack.capacity = s.stack.capacity ∧
      t.client = s.client.begin := by
  obtain ⟨t, hreset, hfresh, hcapacity, hclient⟩ :=
    Engine.reset_fresh (e := engine actions config) s rfl hroom
  have hsettled : t.Settled := by
    apply Engine.reset_settled (e := engine actions config) (s := s)
    rw [hreset]
    exact .answered
  refine ⟨{ t with client := t.client.begin }, ?_, ?_, hsettled.of_stack rfl, hcapacity, ?_⟩
  · rw [parse]
    exact (Engine.bind_of_ok (liftRun_ok hreset)).trans rfl
  · exact ⟨hfresh.base_eq, hfresh.accepted_eq, hfresh.failed_eq, hfresh.result_eq⟩
  · rw [hclient]

theorem parse_concludes (hsafe : actions.Safe I) (hconfig : Sane config) (hs : Usable I s)
    (source : String) :
    Concludes I (fun _ => Usable I) (parse actions config source s) := by
  obtain ⟨t, hparse, hfresh, _, hcapacity, hclient⟩ := parse_begins actions config hs.room source
  have hsound : Sound I t := by
    refine ⟨⟨?_, ?_⟩, ?_, ?_, ?_⟩
    · rw [hclient]
      exact hs.user
    · rw [hcapacity]
      exact hs.room
    · rw [hclient]
      rfl
    · exact ⟨_, .start, fresh_shows hfresh⟩
    · rw [hfresh.result_eq]
      exact nofun
  have hopen : t.closed = false := by
    rw [ShiftReduce.Session.closed, hfresh.accepted_eq, hfresh.failed_eq]
    rfl
  rw [hparse]
  refine (feed_concludes hsafe hconfig ?_ hsound hopen).bind fun _ u hu => conclude_concludes hu
  exact Lexer.scan_legible 0 source.toList

end Steps

def served (actions : Actions σ) (config : Config Terminal) (user : σ) (sources : List String) :
    Session σ :=
  sources.foldl (fun s source => Engine.final (parse actions config source s))
    (Engine.final (start actions config user))

theorem start_usable (hroom : Stack.HasRoom config.capacity 0) {user : σ} (huser : I user) :
    Usable I (Engine.final (start actions config user)) := by
  obtain ⟨s, hbegin, -, -, hcapacity, hclient⟩ := begin_fresh actions hroom user
  rw [start, Engine.final_start, hbegin]
  constructor
  · show I s.client.user
    rw [hclient]
    exact huser
  · show Stack.HasRoom s.stack.capacity 0
    rw [hcapacity]
    exact hroom

theorem served_usable (hsafe : actions.Safe I) (hconfig : Sane config)
    (hroom : Stack.HasRoom config.capacity 0) {user : σ} (huser : I user) (sources : List String) :
    Usable I (served actions config user sources) := by
  have hstart : Usable I (Engine.final (start actions config user)) := start_usable hroom huser
  rw [served]
  generalize Engine.final (start actions config user) = s at hstart
  induction sources generalizing s with
  | nil => exact hstart
  | cons source rest ih =>
    apply ih
    exact (parse_concludes hsafe hconfig hstart source).final

theorem observed_expected (see : Call → σ → σ) (hconfig : Sane config)
    (hroom : Stack.HasRoom config.capacity 0) (user : σ) (history : List String)
    (source : String) :
    ∃ s t, served (Evaluator.observed see) config user history = s ∧
      Evaluator.Seen see s.client.user t.client.user ∧
      ((∃ outcome, parse (Evaluator.observed see) config source s = .ok outcome t) ∨
        ∃ e, parse (Evaluator.observed see) config source s = .error (.raised e) t ∧
          e.Expected) := by
  have hs := served_usable (Evaluator.observed_safe see user) hconfig hroom
    (Evaluator.Seen.refl see user) history
  have hconcludes := parse_concludes (Evaluator.observed_safe see _) hconfig
    ⟨Evaluator.Seen.refl see _, hs.room⟩ source
  refine ⟨_, _, rfl, hconcludes.final.user, ?_⟩
  generalize parse (Evaluator.observed see) config source _ = r at hconcludes
  cases hconcludes with
  | ok => exact .inl ⟨_, rfl⟩
  | raised he => exact .inr ⟨_, rfl, he⟩

/-- With the stock actions, whatever a session has served, a source comes to an outcome or to an
error of the input. A user that sees every operation sees numbers only given to functions. -/
theorem parse_expected (see : Call → σ → σ) (hebnf : config.ebnf = true)
    (hrecovery : ∀ t, config.recovery = some t → t = .error)
    (hcapacity : ∀ n, config.capacity = some n → 1 ≤ n) (user : σ) (history : List String)
    (source : String) :
    (∃ s t, served (Evaluator.observed see) config user history = s ∧
      Evaluator.Seen see s.client.user t.client.user ∧
      ((∃ outcome, parse (Evaluator.observed see) config source s = .ok outcome t) ∨
        ∃ e, parse (Evaluator.observed see) config source s = .error (.raised e) t ∧
          e.Expected)) ∧
    ∃ s t, served Evaluator.actions config user history = s ∧
      ((∃ outcome, parse Evaluator.actions config source s = .ok outcome t) ∨
        ∃ e, parse Evaluator.actions config source s = .error (.raised e) t ∧ e.Expected) := by
  have hconfig : Sane config := ⟨hebnf, hrecovery⟩
  have hstock := observed_expected (fun _ u => u) hconfig hcapacity user history source
  rw [Evaluator.observed_unseen] at hstock
  obtain ⟨s, t, hs, -, hparse⟩ := hstock
  exact ⟨observed_expected see hconfig hcapacity user history source, s, t, hs, hparse⟩

section Recorded

def answer? : EStateM.Result (Halt Error) (Session σ) α → Option α
  | .ok a _ => some a
  | .error _ _ => none

def record (call : Call) (calls : List Call) : List Call := calls ++ [call]

def bounded : Config Terminal := { defaultConfig with capacity := some 16 }

theorem parse_expected_max :
    ∃ s t, served (Evaluator.observed record) bounded [] ["1 + ;", "1 / 0;"] = s ∧
      Evaluator.Seen record s.client.user t.client.user ∧
      parse (Evaluator.observed record) bounded "max(2, -3);" s = .ok ⟨[some 2], []⟩ t := by
  have hanswer : answer? (parse (Evaluator.observed record) bounded "max(2, -3);"
      (served (Evaluator.observed record) bounded [] ["1 + ;", "1 / 0;"])) =
      some ⟨[some 2], []⟩ := by decide +kernel
  obtain ⟨⟨s, t, rfl, hseen, hparse⟩, -⟩ := @parse_expected _ bounded record rfl
    (fun _ h => (Option.some.inj h).symm) (fun _ h => Option.some.inj h ▸ Nat.le_add_left 1 15) []
    ["1 + ;", "1 / 0;"] "max(2, -3);"
  refine ⟨_, t, rfl, hseen, ?_⟩
  rcases hparse with ⟨outcome, hparse⟩ | ⟨e, hparse, _⟩
  · rw [hparse] at hanswer ⊢
    cases hanswer
    rfl
  · rw [hparse] at hanswer
    cases hanswer

end Recorded

end ShiftReduce.Calculator
