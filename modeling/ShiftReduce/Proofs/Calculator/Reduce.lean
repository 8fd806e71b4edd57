import ShiftReduce.Calculator.Parser
import ShiftReduce.Proofs.Calculator.Proper
import ShiftReduce.Proofs.Engine.Element

namespace ShiftReduce.Calculator

open Engine (Told Leaves bind_of_ok bind_of_error)

variable {σ : Type} {actions : Actions σ} {config : Config Terminal}

theorem told_failure {c d : Client σ} (h : Told (engine actions config) c d) :
    d.failure = c.failure := by
  induction h with
  | refl => rfl
  | notify notice h ih =>
    rw [← ih]
    cases notice <;> rfl

def serve (user : σ) (s : Session σ) : Session σ := { s with client.user := user }

theorem serve_base {s t : Session σ} (h : Engine.SameBase s t) (user : σ) :
    Engine.SameBase s (serve user t) := ⟨h.base_eq, h.capacity_eq⟩

inductive Works (actions : Actions σ) : Work → σ → Content → σ → Prop
  | done (c u) : Works actions (.done c) u c u
  | perform {call u v u'} : actions.perform call u = .ok v u' →
      Works actions (.perform call) u (.value v) u'

theorem Works.yields {work : Work} {c : Content} {u u' : σ} (h : Works actions work u c u') :
    work.Yields c := by
  cases h with
  | done => exact .done c
  | perform hcall => exact .performed (Actions.perform_answers hcall)

def broken (e : Error) (user : σ) (s : Session σ) : Session σ :=
  { s with client := { s.client with user, failure := some e } }

inductive Reduced (actions : Actions σ) (config : Config Terminal) (work : Work) (next : State)
    (below : List Cell) (s : Session σ) :
    EStateM.Result (Halt Fault) (Session σ) Unit → Prop
  | worked {c u frames t} : Works actions work s.client.user c u →
      Shows frames (⟨next, c⟩ :: below) →
      Leaves (engine actions config) (serve u s) frames t →
      Reduced actions config work next below s (.ok () t)
  | broke {call e u} : work = .perform call → actions.perform call s.client.user = .error e u →
      Reduced actions config work next below s (.error (.raised (.action e.message)) (broken e u s))

section Reduction

variable {s : Session σ} {cells below : List Cell} {work : Work} {next : State} {p : Production}

theorem reduce_works {args : Operands} {c : Content} {u : σ}
    (h : Request.of? args p = some (.ok work.request))
    (hworks : Works actions work s.client.user c u) :
    (engine actions config).callProvider p args s = .ok c.head (serve u s) := by
  cases hworks with
  | done =>
    simp only [Engine.callProvider, engine, provider, Client.reduce, h, Work.request]
    rfl
  | perform hcall =>
    simp only [Engine.callProvider, engine, provider, Client.reduce, h, Work.request, hcall]
    rfl

theorem reduce_breaks {args : Operands} {call : Call} {e : Error} {u : σ}
    (h : Request.of? args p = some (.ok (.perform call)))
    (hcall : actions.perform call s.client.user = .error e u) :
    (engine actions config).callProvider p args s =
      .error (.raised (.action e.message)) (broken e u s) := by
  simp only [Engine.callProvider, engine, provider, Client.reduce, h, hcall]
  rfl

theorem works_or_breaks (actions : Actions σ) (work : Work) (u : σ) :
    (∃ c u', Works actions work u c u') ∨
      ∃ call e u', work = .perform call ∧ actions.perform call u = .error e u' := by
  cases work with
  | done c => exact .inl ⟨c, u, .done c u⟩
  | perform call =>
    cases h : actions.perform call u with
    | ok v u' => exact .inl ⟨_, u', .perform h⟩
    | error e u' => exact .inr ⟨call, e, u', rfl, h⟩

theorem Stands.goto_eq {y : Element State Value} {cell : Cell} {n : Nonterminal}
    (hy : Stands y cell) (hgoto : goto cell.state n = some next) :
    (engine actions config).table.goto y.state n = some next := by
  rw [hy.state_eq]
  exact hgoto

theorem action_reduced (hred : p.rule.reduction = .action) (h : Reduces p cells work next below)
    (hs : Shows s.stack.frames cells) :
    Reduced actions config work next below s ((engine actions config).applyRule p p.rule s) := by
  obtain ⟨htop, hasks, hgoto⟩ := h
  obtain ⟨xs, y, ys, hframes, hxs, hy, hys⟩ := hs.split
  have hsize := length_top htop
  rw [← hxs.length_eq] at hsize
  have hrequest := request_eq hframes hxs hred hasks
  rw [Engine.applyRule_action hred, ← hsize]
  rcases works_or_breaks actions work s.client.user with ⟨c, u, hworks⟩ | ⟨call, e, u, rfl, hcall⟩
  · rw [bind_of_ok (reduce_works hrequest hworks)]
    obtain ⟨t, hpush, ht⟩ :=
      Engine.replace_leaves c.head (s := serve u s) hframes rfl rfl (hy.goto_eq hgoto)
    rw [hpush]
    have hplain := hasks.plain hred hworks.yields
    refine .worked hworks ⟨_, rfl, ?_⟩ ht
    rw [hplain]
    exact .cons (.value next _) (.cons hy hys)
  · rw [bind_of_error (reduce_breaks hrequest hcall)]
    exact .broke rfl hcall

theorem nextStatement_reduced (h : Reduces .nextStatement cells work next below)
    (hpath : Path (cells.map Cell.state)) (hs : Shows s.stack.frames cells) :
    Reduced actions config work next below s
      ((engine actions config).applyRule .nextStatement Production.nextStatement.rule s) := by
  obtain @⟨top, cell, below, _, _, htop, hasks, hgoto⟩ := h
  obtain ⟨xs, y, ys, hframes, hxs, hy, hys⟩ := hs.split
  obtain ⟨⟨q, c⟩, ⟨q', c'⟩, rfl⟩ := List.length_eq_two.mp (length_top htop)
  have hasks : Asks .nextStatement [c', c] work := hasks
  have hnext := hpath.tail.eq_goto (List.cons.inj htop).1 hgoto
  cases hasks with
  | nextStatement vs v =>
    obtain ⟨x, _, hx, hrest, rfl⟩ := List.forall₂_cons_right_iff.mp hxs
    obtain ⟨x', _, hx', ⟨⟩, rfl⟩ := List.forall₂_cons_right_iff.mp hrest
    obtain rfl := hx.of_value
    obtain ⟨under, rfl, rfl⟩ := hx'.of_list
    obtain ⟨t, hrun, ht, htframes⟩ := Engine.foldSecond (e := engine actions config) hframes
    rw [Engine.applyRule_seqTrail (by rfl), hrun]
    refine .worked (.done _ _) ⟨_, rfl, ?_⟩ (.done ht htframes)
    rw [← hnext]
    exact .cons .fold (.cons hy hys)

theorem nextArgument_reduced (h : Reduces .nextArgument cells work next below)
    (hpath : Path (cells.map Cell.state)) (hs : Shows s.stack.frames cells) :
    Reduced actions config work next below s
      ((engine actions config).applyRule .nextArgument Production.nextArgument.rule s) := by
  obtain @⟨top, cell, below, _, _, htop, hasks, hgoto⟩ := h
  obtain ⟨xs, y, ys, hframes, hxs, hy, hys⟩ := hs.split
  obtain ⟨⟨q, c⟩, ⟨r, d⟩, ⟨q', c'⟩, rfl⟩ := List.length_eq_three.mp (length_top htop)
  have hasks : Asks .nextArgument [c', d, c] work := hasks
  have hnext := hpath.tail.tail.eq_goto (List.cons.inj htop).1 hgoto
  cases hasks with
  | nextArgument vs u v =>
    obtain ⟨x, _, hx, hrest, rfl⟩ := List.forall₂_cons_right_iff.mp hxs
    obtain ⟨z, _, hz, hlast, rfl⟩ := List.forall₂_cons_right_iff.mp hrest
    obtain ⟨x', _, hx', ⟨⟩, rfl⟩ := List.forall₂_cons_right_iff.mp hlast
    obtain rfl := hx.of_value
    obtain rfl := hz.of_value
    obtain ⟨under, rfl, rfl⟩ := hx'.of_list
    obtain ⟨t, hrun, ht, htframes⟩ := Engine.foldThird (e := engine actions config) hframes
    rw [Engine.applyRule_seqTrail2 (by rfl), hrun]
    refine .worked (.done _ _) ⟨_, rfl, ?_⟩ (.done ht htframes)
    rw [← hnext]
    exact .cons .fold (.cons hy hys)

theorem noStatement_reduced (h : Reduces .noStatement cells work next below)
    (hs : Shows s.stack.frames cells) :
    Reduced actions config work next below s
      ((engine actions config).applyRule .noStatement Production.noStatement.rule s) := by
  obtain @⟨top, cell, below, _, _, htop, hasks, hgoto⟩ := h
  obtain ⟨xs, y, ys, hframes, hxs, hy, hys⟩ := hs.split
  have hsize := length_top htop
  rw [← hxs.length_eq] at hsize
  obtain rfl := List.length_eq_zero_iff.mp (length_top htop)
  have hasks : Asks .noStatement [] work := hasks
  cases hasks with
  | noStatement =>
    cases hxs
    obtain ⟨t, hrun, ht⟩ := Engine.cover_leaves (e := engine actions config)
      hframes nofun hsize rfl rfl (hy.goto_eq hgoto)
    rw [Engine.applyRule_seqHead (by rfl), hrun]
    exact .worked (.done _ _) ⟨_, rfl, .cons (.list next []) (.cons hy hys)⟩ ht

theorem firstArgument_reduced (h : Reduces .firstArgument cells work next below)
    (hs : Shows s.stack.frames cells) :
    Reduced actions config work next below s
      ((engine actions config).applyRule .firstArgument Production.firstArgument.rule s) := by
  obtain @⟨top, cell, below, _, _, htop, hasks, hgoto⟩ := h
  obtain ⟨xs, y, ys, hframes, hxs, hy, hys⟩ := hs.split
  have hsize := length_top htop
  rw [← hxs.length_eq] at hsize
  obtain ⟨⟨q, c⟩, rfl⟩ := List.length_eq_one_iff.mp (length_top htop)
  have hasks : Asks .firstArgument [c] work := hasks
  cases hasks with
  | firstArgument v =>
    obtain ⟨x, _, hx, ⟨⟩, rfl⟩ := List.forall₂_cons_right_iff.mp hxs
    obtain rfl := hx.of_value
    have hplain : ∀ x ∈ [(⟨q, v, []⟩ : Element State Value)], x.under = [] := by
      intro x hx
      rw [List.mem_singleton.mp hx]
    obtain ⟨t, hrun, ht⟩ := Engine.cover_leaves (e := engine actions config)
      hframes hplain hsize rfl rfl (hy.goto_eq hgoto)
    rw [Engine.applyRule_seqHead (by rfl), hrun]
    exact .worked (.done _ _) ⟨_, rfl, .cons (.list next [⟨q, v, 0⟩]) (.cons hy hys)⟩ ht

theorem empty_reduced (h : Reduces .empty cells work next below)
    (hs : Shows s.stack.frames cells) :
    Reduced actions config work next below s
      ((engine actions config).applyRule .empty Production.empty.rule s) := by
  obtain @⟨top, cell, below, _, _, htop, hasks, hgoto⟩ := h
  obtain ⟨xs, y, ys, hframes, hxs, hy, hys⟩ := hs.split
  have hsize := length_top htop
  rw [← hxs.length_eq] at hsize
  obtain ⟨⟨q, c⟩, rfl⟩ := List.length_eq_one_iff.mp (length_top htop)
  have hasks : Asks .empty [c] work := hasks
  cases hasks with
  | empty c =>
    obtain ⟨t, hrun, ht⟩ := Engine.replace_leaves (e := engine actions config) default hframes
      rfl rfl (hy.goto_eq hgoto)
    rw [hsize] at hrun
    rw [Engine.applyRule_nothing (by rfl), hrun]
    exact .worked (.done _ _) ⟨_, rfl, .cons (.value next _) (.cons hy hys)⟩ ht

theorem reduce_reduced (hebnf : config.ebnf = true) (h : Reduces p cells work next below)
    (hpath : Path (cells.map Cell.state)) (hs : Shows s.stack.frames cells) :
    Reduced actions config work next below s ((engine actions config).reduce p p.rule s) := by
  have hrun : (engine actions config).reduce p p.rule s =
      (engine actions config).applyRule p p.rule s := by
    obtain ⟨htop, hasks, hgoto⟩ := h
    obtain ⟨xs, y, ys, hframes, hxs, hy, hys⟩ := hs.split
    have hsize := length_top htop
    rw [← hxs.length_eq] at hsize
    exact Engine.reduce_eq_applyRule hframes hsize hebnf (by cases p <;> rfl)
  rw [hrun]
  cases p with
  | start =>
    obtain ⟨htop, hasks, hgoto⟩ := h
    cases hasks
  | noStatement => exact noStatement_reduced h hs
  | nextStatement => exact nextStatement_reduced h hpath hs
  | firstArgument => exact firstArgument_reduced h hs
  | nextArgument => exact nextArgument_reduced h hpath hs
  | empty => exact empty_reduced h hs
  | _ => exact action_reduced rfl h hs

end Reduction

end ShiftReduce.Calculator
