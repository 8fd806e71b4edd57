import ShiftReduce.Proofs.Engine.Options

namespace ShiftReduce.Engine

variable {S T N P V σ α : Type}

section Chunks

variable [Inhabited V] [DecidableEq T] (e : Engine S T N P V σ)

def untilClosed : List (T × V) → Session S V σ → EStateM.Result (Halt Fault) (Session S V σ) Bool
  | [], s => .ok false s
  | (token, value) :: rest, s =>
    match e.post token value s with
    | .ok false t => untilClosed rest t
    | r => r

def feed : List (List (T × V)) → Run S V σ Bool
  | [] => pure false
  | chunk :: chunks => do
    if ← e.postAll chunk then pure true else feed chunks

theorem postAll_eq_untilClosed (tokens : List (T × V)) (s : Session S V σ) :
    e.postAll tokens s = e.untilClosed tokens s := by
  induction tokens generalizing s with
  | nil => rfl
  | cons posted rest ih =>
    rw [untilClosed]
    cases hpost : e.post posted.1 posted.2 s with
    | ok closed t =>
      cases closed with
      | true => exact postAll_of_closed hpost
      | false => exact (postAll_of_open hpost).trans (ih t)
    | error halt t => exact bind_of_error hpost

theorem postAll_append (tokens tokens' : List (T × V)) :
    e.postAll (tokens ++ tokens') =
      e.postAll tokens >>= fun closed => if closed then pure true else e.postAll tokens' := by
  induction tokens with
  | nil => rfl
  | cons posted rest ih =>
    have hcons : ∀ tokens, e.postAll (posted :: tokens) = e.post posted.1 posted.2 >>= fun closed =>
      if closed then pure true else e.postAll tokens := fun _ => rfl
    rw [List.cons_append, hcons, hcons, ih, bind_assoc]
    refine bind_congr fun closed => ?_
    cases closed <;> rfl

theorem feed_eq_postAll (chunks : List (List (T × V))) :
    e.feed chunks = e.postAll chunks.flatten := by
  induction chunks with
  | nil => rfl
  | cons chunk chunks ih =>
    rw [List.flatten_cons, postAll_append, feed, ih]

end Chunks

def beside (e : Engine S T N P V σ) : Comparison S T N P V σ where
  engine := e
  config := e.config
  Alike _ _ := True
  Alarmed _ := False
  Excused _ := False

variable {e : Engine S T N P V σ} {s : Session S V σ}

theorem beside_fair (hp : e.provider.Functional) : e.beside.Fair where
  keeps := .never _
  called production _ _ _ _ hcontents _ := ⟨hp production _ _ hcontents.symm, trivial⟩
  told _ _ _ _ := trivial
  deciding _ _ _ _ _ _ := trivial
  ebnf := .inl rfl
  overflow := .inl rfl
  recovery := .inl ⟨rfl, rfl⟩

theorem beside_answers {r r' : EStateM.Result (Halt Fault) (Session S V σ) α}
    (h : e.beside.Tracks r r') : outcome r' = outcome r ∧ e.beside.Twins (final r) (final r') :=
  h.answers id fun _ _ _ => id

theorem beside_twins (h : s.stack.capacity = e.config.capacity) (client : σ) :
    e.beside.Twins s { s with client } :=
  .of_capacity h h trivial

theorem beside_run {x : Run S V σ α} (hx : e.beside.Mimics x x)
    (h : s.stack.capacity = e.config.capacity) (client : σ) :
    outcome (x { s with client }) = outcome (x s) ∧
      e.beside.Twins (final (x s)) (final (x { s with client })) :=
  beside_answers (hx _ _ (beside_twins h client))

theorem outcome_take (x : Run S V σ α) (s : Session S V σ) :
    outcome ((x >>= fun _ => take) s) = (outcome (x s)).map fun _ => accepted? (final (x s)) := by
  cases hrun : x s with
  | ok a t =>
    rw [bind_of_ok hrun, take_run, show final (.ok a t) = t from rfl]
    cases accepted? t <;> rfl
  | error halt t =>
    rw [bind_of_error hrun]
    rfl

variable [Inhabited V]

theorem beside_begin (hp : e.provider.Functional) (client client' : σ) :
    e.beside.Tracks (e.begin client) (e.begin client') :=
  (beside_fair hp).reset _ _ (.intro (C := e.beside) (e.blank client) trivial)

theorem reset_eq_begin (h : s.stack.capacity = e.config.capacity) (client : σ) :
    e.reset { s with client } = e.begin client := by
  have hcleared : cleared { s with client } = cleared (e.blank client) := by
    rw [cleared, cleared, blank, Stack.clear, Stack.clear, h]
    rfl
  rw [begin, reset_eq, reset_eq, hcleared]

variable [DecidableEq T]

theorem Reached.capacity_eq (hp : e.provider.Functional) (hs : e.Reached s) :
    s.stack.capacity = e.config.capacity := by
  induction hs with
  | @start client s hstart =>
    have htracks := beside_begin hp client client
    rw [(of_start hstart).1] at htracks
    exact (beside_answers htracks).2.capacity_eq
  | @perform s t op hs ht ih =>
    obtain ⟨-, htwins⟩ := beside_run ((beside_fair hp).perform op) ih s.client
    rw [← ht.final_eq]
    exact htwins.capacity_eq
  | attend client hs ih => exact ih

theorem Reached.started (hs : e.Reached s) : ∃ client t, e.start client = .ok () t := by
  induction hs with
  | start hstart => exact ⟨_, _, hstart⟩
  | perform op hs ht ih => exact ih
  | attend client hs ih => exact ih

theorem Reached.startable (hp : e.provider.Functional) (hs : e.Reached s) (client : σ) :
    ∃ fresh, e.start client = .ok () fresh := by
  obtain ⟨first, t, hfirst⟩ := hs.started
  obtain ⟨hbegin, hroom⟩ := of_start hfirst
  have htracks := beside_begin hp first client
  rw [hbegin] at htracks
  cases hfresh : e.begin client with
  | ok _ fresh => exact ⟨fresh, start_of_begin hroom hfresh⟩
  | error halt t =>
    rw [hfresh] at htracks
    cases (beside_answers htracks).1

/-- A session that is reset takes chunks of tokens as a new one takes the tokens one by one, and so
does one that parses them. -/
theorem reset_feed (hp : e.provider.Functional) (hs : e.Reached s) (client : σ)
    (chunks : List (List (T × V))) :
    ∃ fresh, e.start client = .ok () fresh ∧
      outcome ((e.reset >>= fun _ => e.feed chunks) s) =
        outcome (e.untilClosed chunks.flatten fresh) ∧
      (final ((e.reset >>= fun _ => e.feed chunks) s)).view =
        (final (e.untilClosed chunks.flatten fresh)).view ∧
      outcome (e.parse chunks.flatten s) = (outcome (e.untilClosed chunks.flatten fresh)).map
        fun _ => accepted? (final (e.untilClosed chunks.flatten fresh)) := by
  have hfair := beside_fair hp
  have hcapacity := hs.capacity_eq hp
  obtain ⟨fresh, hfresh⟩ := hs.startable hp client
  have hreset : e.reset { s with client } = .ok () fresh :=
    (reset_eq_begin hcapacity client).trans (of_start hfresh).1
  refine ⟨fresh, hfresh, ?_⟩
  rw [feed_eq_postAll, ← postAll_eq_untilClosed]
  obtain ⟨hanswer, htwins⟩ := beside_run (x := e.reset >>= fun _ => e.postAll chunks.flatten)
    (hfair.reset.bind (fun _ => postAll_keeps hfair.keeps _) fun _ => hfair.postAll _)
    hcapacity client
  obtain ⟨hparse, -⟩ := beside_run (x := e.parse chunks.flatten)
    (hfair.parse chunks.flatten) hcapacity client
  rw [bind_of_ok hreset] at hanswer htwins
  rw [parse, bind_of_ok hreset, outcome_take] at hparse
  exact ⟨hanswer.symm, htwins.view_eq.symm, hparse.symm⟩

section Example

open Calculator (stock Terminal Value)

def pieces : List (List (Terminal × Value)) :=
  [[(.int, .number 2), (.asterisk, .nothing)], [],
    [(.int, .number 3), (.semicolon, .nothing), (.eof, .nothing), (.plus, .nothing)],
    [(.int, .number 7)]]

theorem reset_feed_pieces :
    stock.provider.Functional ∧ Reached stock unfinished ∧
      outcome ((stock.reset >>= fun _ => stock.feed pieces) unfinished) = .ok true ∧
      ∃ fresh, stock.start (.new ()) = .ok () fresh ∧
        outcome ((stock.reset >>= fun _ => stock.feed pieces) unfinished) =
          outcome (stock.untilClosed pieces.flatten fresh) ∧
        (final ((stock.reset >>= fun _ => stock.feed pieces) unfinished)).view =
          (final (stock.untilClosed pieces.flatten fresh)).view ∧
        outcome (stock.parse pieces.flatten unfinished) =
          (outcome (stock.untilClosed pieces.flatten fresh)).map
            fun _ => accepted? (final (stock.untilClosed pieces.flatten fresh)) := by
  have haccepted : outcome ((stock.reset >>= fun _ => stock.feed pieces) unfinished) = .ok true := by
    decide +kernel
  exact ⟨Calculator.stock_functional, reached_unfinished, haccepted,
    reset_feed Calculator.stock_functional reached_unfinished (.new ()) pieces⟩

end Example

end ShiftReduce.Engine
