import ShiftReduce.Proofs.Calculator.Advance
import ShiftReduce.Proofs.Calculator.Accept

/-!
Skipped statements on the stack. From the error token on, a statement that recovery skips is to be
seen there: as the token, as a statement without a result, among the statements, and in the program.
Under the stock actions no reduction loses one, and none makes one up.
-/

namespace ShiftReduce.Calculator

def Value.skips : Value → Bool
  | .statement result => result.isNone
  | .program results => results.any Option.isNone
  | _ => false

def Content.skips : Content → Bool
  | .value v => v.skips
  | .list vs => vs.any Value.skips

def Slot.skips (x : Slot) : Bool :=
  x.state = .skipping || x.value.skips || x.items.any Value.skips

def Cell.skips (cell : Cell) : Bool := cell.slot.skips

def skips (frames : List (Frame State Value)) : Bool := (slots frames).any Slot.skips

theorem Shows.skips_eq {frames : List (Frame State Value)} {cells : List Cell}
    (h : Shows frames cells) : skips frames = cells.any Cell.skips := by
  rw [skips, h.slots_eq, List.any_map]
  rfl

def Symbol.carries : Symbol → Bool
  | .terminal .error | .nonterminal .program | .nonterminal .statements
  | .nonterminal .statement => true
  | _ => false

theorem Fits.skips_eq {x : Symbol} {c : Content} (h : Fits x c) (hx : x.carries = false) :
    c.skips = false := by
  cases h with
  | token hshaped => cases hshaped <;> rfl
  | denoted n d =>
    cases n with
    | program | statements | statement => cases hx
    | arguments =>
      refine List.any_eq_false.mpr fun v hmem => ?_
      obtain ⟨n, -, rfl⟩ := List.mem_map.mp hmem
      exact Bool.false_ne_true
    | start | expr | term | factor => rfl

theorem Cell.skips_eq {cell : Cell} (h : cell.state.entry ≠ .terminal .error) :
    cell.skips = cell.content.skips := by
  obtain ⟨q, c⟩ := cell
  have hstate : q ≠ .skipping := by
    rintro rfl
    exact h rfl
  cases c <;> simp [Cell.skips, Slot.skips, Cell.slot, hstate, Content.head, Content.items,
    Content.skips, Value.skips]

theorem Cell.skips_of_fits {cell : Cell} (h : Fits cell.state.entry cell.content)
    (hentry : cell.state.entry.carries = false) : cell.skips = false := by
  have herror : cell.state.entry ≠ .terminal .error := by
    intro herror
    rw [herror] at hentry
    cases hentry
  rw [Cell.skips_eq herror, h.skips_eq hentry]

theorem Cell.skips_of_error {cell : Cell} (h : cell.state.entry = .terminal .error) :
    cell.skips = true := by
  obtain ⟨q, c⟩ := cell
  have hstate : q = .skipping := by cases q <;> first | rfl | cases h
  simp [Cell.skips, Slot.skips, Cell.slot, hstate]

theorem any_skips_statements (results : List (Option (Option Int))) :
    (results.map statementValue).any Value.skips =
      ((results.map statementValue).filterMap Value.asStatement?).any Option.isNone := by
  induction results with
  | nil => rfl
  | cons result rest ih =>
    cases result with
    | none => exact ih
    | some result => exact congrArg (result.isNone || ·) ih

section Reductions

variable {σ : Type} {p : Production} {work : Work} {next : State} {below cells popped : List Cell}
  {c : Content} {u u' : σ}

theorem any_skips_of_rhs (hrhs : (popped.map fun cell => cell.state.entry) = p.rhs)
    (hfits : ∀ cell ∈ popped, Fits cell.state.entry cell.content)
    (hplain : (p.rhs.all fun x => !x.carries) = true) : popped.any Cell.skips = false := by
  rw [List.any_eq_false]
  intro cell hmem
  have hentry : cell.state.entry ∈ p.rhs := hrhs ▸ List.mem_map_of_mem hmem
  have hcell := List.all_eq_true.mp hplain _ hentry
  rw [Bool.not_eq_true'] at hcell
  simp [Cell.skips_of_fits (hfits cell hmem) hcell]

theorem Asks.skips_eq (h : Asks p (popped.map Cell.content) work)
    (hrhs : (popped.map fun cell => cell.state.entry) = p.rhs)
    (hfits : ∀ cell ∈ popped, Fits cell.state.entry cell.content)
    (hnext : next.entry = .nonterminal p.rule.lhs) (hc : Fits next.entry c)
    (hworks : Works Evaluator.actions work u c u') :
    Cell.skips ⟨next, c⟩ = popped.any Cell.skips := by
  have hplain : (p.rhs.all fun x => !x.carries) = true → popped.any Cell.skips = false :=
    any_skips_of_rhs hrhs hfits
  have hpushed : Cell.skips ⟨next, c⟩ = c.skips := Cell.skips_eq (by simp [hnext])
  generalize hcontents : popped.map Cell.content = contents at h
  cases h with
  | program vs =>
    obtain ⟨a, rfl, ha⟩ := List.map_eq_singleton_iff.mp hrhs
    obtain ⟨hcontent, -⟩ := List.cons.inj hcontents
    rw [hpushed, List.any_cons, List.any_nil, Bool.or_false, Cell.skips_eq (by simp [ha])]
    have hfit := hfits a List.mem_cons_self
    rw [ha] at hfit
    generalize a.content = d at hcontent hfit ⊢
    cases hfit with
    | denoted _ results =>
      cases hcontent
      cases hworks with
      | perform hcall =>
        cases hcall
        exact (any_skips_statements results).symm
  | noStatement =>
    rw [hplain rfl, hpushed]
    cases hworks
    rfl
  | nextStatement vs v =>
    obtain ⟨a, _, rfl, ha, hrhs⟩ := List.map_eq_cons_iff.mp hrhs
    obtain ⟨b, rfl, hb⟩ := List.map_eq_singleton_iff.mp hrhs
    obtain ⟨hlist, hrest⟩ := List.cons.inj hcontents
    obtain ⟨hvalue, -⟩ := List.cons.inj hrest
    cases hworks
    rw [hpushed, List.any_cons, List.any_cons, List.any_nil, Cell.skips_eq (by simp [ha]),
      Cell.skips_eq (by simp [hb]), hlist, hvalue]
    simp [Content.skips]
  | evaluated =>
    rw [hplain rfl, hpushed]
    cases hworks with
    | perform hcall =>
      cases hcall
      rfl
  | skipped =>
    obtain ⟨a, rest, rfl, ha, -⟩ := List.map_eq_cons_iff.mp hrhs
    rw [hpushed, List.any_cons, Cell.skips_of_error ha, Bool.true_or]
    cases hworks with
    | perform hcall =>
      cases hcall
      rfl
  | empty =>
    rw [hplain rfl, hpushed]
    cases hworks
    rfl
  | _ =>
    rw [hplain rfl]
    exact Cell.skips_of_fits hc (hnext ▸ rfl)

theorem Reduces.skips_eq (h : Reduces p cells work next below) (hproper : Proper cells)
    (hproper' : Proper (⟨next, c⟩ :: below)) (hworks : Works Evaluator.actions work u c u') :
    (⟨next, c⟩ :: below).any Cell.skips = cells.any Cell.skips := by
  have hnext := h.entry_eq
  obtain @⟨top, cell, below, _, _, htop, hasks, hgoto⟩ := h
  have hpushed := hasks.skips_eq (by rw [List.map_reverse, htop])
    (fun cell hmem => hproper.fits cell (List.mem_append_left _ (List.mem_reverse.mp hmem)))
    hnext (hproper'.fits ⟨next, c⟩ List.mem_cons_self) hworks
  rw [List.any_cons, List.any_append, hpushed, List.any_reverse]

end Reductions

section Drive

variable {σ : Type} {config : Config Terminal} {token : Terminal} {value : Value}
  {cells : List Cell} {s : Session σ} {r : EStateM.Result (Halt Fault) (Session σ) Unit}

inductive Retains (skipped : Bool) : EStateM.Result (Halt Fault) (Session σ) Unit → Prop
  | halted {halt t} : Retains skipped (.error halt t)
  | failed {t : Session σ} : t.failed = true → Retains skipped (.ok () t)
  | accepted {t : Session σ} {results : List (Option Int)} : t.accepted = true →
      t.result = some (.program results) → results.any Option.isNone = skipped →
      Retains skipped (.ok () t)
  | moved {t : Session σ} : t.accepted = false → skips t.stack.frames = skipped →
      Retains skipped (.ok () t)

theorem Proper.any_skips_accepting {cell : Cell} {results : List (Option Int)}
    (h : Proper (cell :: cells)) (hcell : cell.state = .accepting)
    (hcontent : cell.content = .value (.program results)) :
    (cell :: cells).any Cell.skips = results.any Option.isNone := by
  obtain ⟨q, c⟩ := cell
  obtain rfl : q = .accepting := hcell
  obtain rfl : c = .value (.program results) := hcontent
  have hbelow : cells.any Cell.skips = false := by
    have hpath := h.path
    cases cells with
    | nil => rfl
    | cons below rest =>
      have hstart := (goto_program hpath.advance_eq).1
      have hfit := h.fits below (List.mem_cons_of_mem _ List.mem_cons_self)
      have hrest : rest = [] := by
        have htail := hpath.tail
        rw [hstart] at htail
        cases rest with
        | nil => rfl
        | cons => exact absurd rfl (State.advance_entry htail.advance_eq).1
      rw [hrest, List.any_cons, List.any_nil, Bool.or_false]
      exact Cell.skips_of_fits hfit (by rw [hstart]; rfl)
  rw [List.any_cons, hbelow, Bool.or_false]
  exact Cell.skips_eq nofun

theorem Drives.retains (h : Drives Evaluator.actions config token value s cells r)
    (hshaped : Shaped token value) (htoken : token ≠ .error) (hproper : Proper cells)
    (haccepted : s.accepted = false) : Retains (cells.any Cell.skips) r := by
  induction h with
  | refused | crowded | overgrown => exact .failed rfl
  | broke => exact .halted
  | @accepted s t cell cells haction =>
    have hfit := hproper.fits cell List.mem_cons_self
    have hstate := (eq_of_accept haction).1
    rw [hstate] at hfit
    generalize hcontent : cell.content = c at hfit
    cases hfit with
    | denoted _ results =>
      exact .accepted rfl rfl (hproper.any_skips_accepting hstate hcontent).symm
  | @shifted s t cell cells next haction ht hshows =>
    have hentry := State.entry_of_shift haction
    have hplain : Cell.skips ⟨next, .value value⟩ = false := by
      refine Cell.skips_of_fits (hentry ▸ .token hshaped) ?_
      rw [hentry]
      cases token <;> first | rfl | exact absurd rfl htoken
    refine .moved (ht.accepted_eq.trans haccepted) ?_
    rw [hshows.skips_eq, List.any_cons, hplain, Bool.false_or]
  | reduced haction hreduces hworks hw hshows hdrives ih =>
    obtain ⟨-, hyields⟩ := hproper.reduces_clean haction hreduces
    have hproper' := hyields _ hworks.yields
    rw [← hreduces.skips_eq hproper hproper' hworks]
    exact ih hproper' (hw.accepted_eq.trans haccepted)

end Drive

end ShiftReduce.Calculator
