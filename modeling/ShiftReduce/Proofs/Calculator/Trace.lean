import ShiftReduce.Proofs.Calculator.Textbook
import ShiftReduce.Proofs.Engine.Quiet

namespace ShiftReduce.Calculator

def slots : List (Frame State Value) → List Slot
  | [] => []
  | head :: below =>
    ⟨head.state, head.value, (below.take head.folded).reverse.map Frame.value⟩ ::
      slots (below.drop head.folded)
termination_by frames => frames.length
decreasing_by
  simp only [List.length_cons, List.length_drop]
  omega

theorem slots_flatten (xs : List (Element State Value)) :
    slots (flatten xs) =
      xs.map fun x => ⟨x.state, x.value, x.under.reverse.map Frame.value⟩ := by
  induction xs with
  | nil => rw [flatten_nil, slots, List.map_nil]
  | cons x xs ih =>
    have htake : (x.under ++ flatten xs).take x.head.folded = x.under := List.take_left
    have hdrop : (x.under ++ flatten xs).drop x.head.folded = flatten xs := List.drop_left
    rw [flatten_cons, slots, htake, hdrop, ih]
    rfl

theorem Shows.slots_eq {frames : List (Frame State Value)} {cells : List Cell}
    (h : Shows frames cells) : slots frames = cells.map Cell.slot := by
  obtain ⟨xs, rfl, hxs⟩ := h
  rw [slots_flatten]
  induction hxs with
  | nil => rfl
  | @cons x cell xs cells hx hxs ih =>
    rw [List.map_cons, List.map_cons, ih, hx.state_eq, hx.value_eq, hx.items_eq]
    rfl

def Mark.of? : EngineNotice → Option Mark
  | .deciding stack t => some (.faces (slots stack.frames) t)
  | .shifting next => some (.takes (.shift next))
  | .reducing p _ => some (.takes (.reduce p))
  | .accepting => some (.takes .accept)
  | .syntaxError _ => some (.takes .error)
  | .resuming q => some (.resumes q)
  | .unrecoverable _ => some .givesUp
  | .recoveryRefused _ => some .refuses
  | .reposting t => some (.offers t)
  | .discarding t => some (.discards t)
  | .endKept => some .keepsEnd
  | .entering _ | .lifting _ | .stackOverflow _ | .aborting _ => none

variable {σ τ α : Type}

def Act.beside (act : Act σ α) : Act (σ × τ) α := fun u =>
  match act u.1 with
  | .ok a u' => .ok a (u', u.2)
  | .error e u' => .error e (u', u.2)

def Actions.traced (actions : Actions σ) : Actions (σ × List Mark) where
  add m n := (actions.add m n).beside
  sub m n := (actions.sub m n).beside
  mul m n := (actions.mul m n).beside
  div m n := (actions.div m n).beside
  neg n := (actions.neg n).beside
  call name arguments := (actions.call name arguments).beside
  program results := (actions.program results).beside
  statement n := (actions.statement n).beside
  recovered u := ((actions.recovered u.1).1, (actions.recovered u.1).2, u.2)
  watch event u :=
    match event with
    | .notice n _ => (u.1, u.2 ++ (Mark.of? n).toList)
    | .token _ _ => u

theorem Act.map_beside {β : Type} (f : α → β) (act : Act σ α) (u : σ × τ) :
    (f <$> act.beside) u = (f <$> act : Act σ β).beside u := by
  simp only [map_eq_pure_bind, bind, EStateM.bind, Act.beside]
  cases act u.1 <;> rfl

section Traced

variable {actions : Actions σ} {config : Config Terminal} {u u' : σ × List Mark}

theorem traced_perform (call : Call) (u : σ × List Mark) :
    actions.traced.perform call u = (actions.perform call).beside u := by
  cases call with
  | recovered => rfl
  | _ => exact Act.map_beside _ _ u

theorem traced_ok {call : Call} {v : Value} (h : actions.traced.perform call u = .ok v u') :
    actions.perform call u.1 = .ok v u'.1 ∧ u'.2 = u.2 := by
  rw [traced_perform, Act.beside] at h
  split at h
  next hcall =>
    cases h
    exact ⟨hcall, rfl⟩
  next => cases h

theorem traced_error {call : Call} {e : Error} (h : actions.traced.perform call u = .error e u') :
    actions.perform call u.1 = .error e u'.1 ∧ u'.2 = u.2 := by
  rw [traced_perform, Act.beside] at h
  split at h
  next => cases h
  next hcall =>
    cases h
    exact ⟨hcall, rfl⟩

theorem Works.of_traced {work : Work} {c : Content} (h : Works actions.traced work u c u') :
    Works actions work u.1 c u'.1 := by
  cases h with
  | done => exact .done _ _
  | perform hcall => exact .perform (traced_ok hcall).1

theorem told_user {c d : Client (σ × List Mark)}
    (h : Engine.Told (engine actions.traced config) c d) : d.user.1 = c.user.1 := by
  induction h with
  | refl => rfl
  | notify notice h ih =>
    rw [← ih]
    cases notice <;> rfl

def trace (s : Session (σ × List Mark)) : List Mark := s.client.user.2

theorem user_tell (notice : EngineNotice) (s : Session (σ × List Mark)) :
    (s.tell (engine actions.traced config) notice).client.user =
      (s.client.user.1, trace s ++ (Mark.of? notice).toList) := by
  cases notice <;> rfl

theorem user_mark {notice : EngineNotice} {mark : Mark} {s : Session (σ × List Mark)} {v : σ}
    {marks : List Mark} (hnotice : Mark.of? notice = some mark)
    (hs : s.client.user = (v, marks)) :
    (s.tell (engine actions.traced config) notice).client.user = (v, marks ++ [mark]) := by
  rw [user_tell, trace, hs, hnotice]
  rfl

theorem trace_blind : Engine.Blind (engine actions.traced config) trace where
  stack s stack := rfl
  told notice s hnotice := by
    have htrace : trace (s.tell (engine actions.traced config) notice) =
        trace s ++ (Mark.of? notice).toList := congrArg Prod.snd (user_tell notice s)
    cases notice <;> first | exact htrace.trans (List.append_nil _) | cases hnotice
  called production args s := by
    simp only [Engine.callProvider, engine, provider, Client.reduce]
    cases Request.of? args production with
    | none => rfl
    | some request =>
      cases request with
      | error e => rfl
      | ok request =>
        cases request with
        | copy v => rfl
        | perform call =>
          simp only
          cases hcall : actions.traced.perform call s.client.user with
          | ok v u => exact (traced_ok hcall).2
          | error e u => exact (traced_error hcall).2

end Traced

end ShiftReduce.Calculator
