import ShiftReduce.Proofs.Calculator.Cell

namespace ShiftReduce.Calculator

def Nonterminal.Denotation : Nonterminal → Type
  | .start => Unit
  | .program => List (Option Int)
  | .statements => List (Option (Option Int))
  | .statement => Option (Option Int)
  | .expr | .term | .factor => Int
  | .arguments => List Int

def statementValue : Option (Option Int) → Value
  | none => .nothing
  | some result => .statement result

def Nonterminal.content : (n : Nonterminal) → n.Denotation → Content
  | .start, _ => .value .nothing
  | .program, results => .value (.program results)
  | .statements, results => .list (List.map statementValue results)
  | .statement, result => .value (statementValue result)
  | .expr, n | .term, n | .factor, n => .value (.number n)
  | .arguments, ns => .list (List.map Value.number ns)

inductive Shaped : Terminal → Value → Prop
  | int (n) : Shaped .int (.number n)
  | ident (name) : Shaped .ident (.name name)
  | mark {t} : t ≠ .int → t ≠ .ident → Shaped t .nothing

theorem Shaped.error : Shaped .error .nothing := .mark nofun nofun

inductive Fits : Symbol → Content → Prop
  | token {t v} : Shaped t v → Fits (.terminal t) (.value v)
  | denoted (n) (d : n.Denotation) : Fits (.nonterminal n) (n.content d)

def Call.Clean : Call → Prop
  | .call _ arguments => ∀ argument ∈ arguments, ∃ n, argument = .ok n
  | _ => True

def Call.Carries (e : Error) : Call → Prop
  | .call _ arguments => .error e ∈ arguments
  | _ => False

theorem Call.Clean.not_carries {call : Call} (h : call.Clean) (e : Error) : ¬ call.Carries e := by
  cases call with
  | call name arguments =>
    intro hmem
    obtain ⟨n, hn⟩ := h _ hmem
    cases hn
  | _ => exact id

theorem clean_eq_map {arguments : List (Except Error Int)}
    (h : ∀ argument ∈ arguments, ∃ n, argument = .ok n) :
    arguments = (arguments.filterMap Except.toOption).map .ok := by
  induction arguments with
  | nil => rfl
  | cons argument rest ih =>
    obtain ⟨n, rfl⟩ := h _ List.mem_cons_self
    have hrest := ih fun argument hmem => h argument (List.mem_cons_of_mem _ hmem)
    exact congrArg (.ok n :: ·) hrest

def Work.Clean : Work → Prop
  | .done _ => True
  | .perform call => call.Clean

theorem Call.clean_call (name : String) (ns : List Int) :
    (Call.call name ((ns.map Value.number).map Value.asNumber)).Clean := by
  intro argument hmem
  rw [List.map_map, List.mem_map] at hmem
  obtain ⟨n, _, rfl⟩ := hmem
  exact ⟨n, rfl⟩

namespace Work

variable {x : Symbol} {c : Content} {call : Call}

theorem fits_of_done (h : Fits x c) : ∀ d, (Work.done c).Yields d → Fits x d := by
  intro d hd
  cases hd
  exact h

theorem fits_of_answers (h : ∀ v, call.Answers v → Fits x (.value v)) :
    ∀ d, (Work.perform call).Yields d → Fits x d := by
  intro d hd
  cases hd with
  | performed hv => exact h _ hv

theorem fits_of_number {n : Nonterminal}
    (hn : ∀ m : Int, Fits (.nonterminal n) (.value (.number m)))
    (hcall : ∀ v, call.Answers v → ∃ m, v = .number m) :
    ∀ d, (Work.perform call).Yields d → Fits (.nonterminal n) d := by
  apply fits_of_answers
  intro v hv
  obtain ⟨m, rfl⟩ := hcall v hv
  exact hn m

end Work

theorem fits_statements (results : List (Option (Option Int))) (result : Option (Option Int)) :
    Fits (.nonterminal .statements)
      (.list (results.map statementValue ++ [statementValue result])) := by
  rw [← List.map_singleton, ← List.map_append]
  exact .denoted .statements (results.append [result])

theorem fits_arguments (ns : List Int) (n : Int) :
    Fits (.nonterminal .arguments) (.list (ns.map Value.number ++ [.number n])) := by
  rw [← List.map_singleton, ← List.map_append]
  exact .denoted .arguments (ns.append [n])

theorem asks_of_fits {p : Production} {contents : List Content} (hp : p ≠ .start)
    (h : List.Forall₂ Fits p.rhs contents) :
    ∃ work, Asks p contents work ∧ work.Clean ∧
      ∀ c, work.Yields c → Fits (.nonterminal p.rule.lhs) c := by
  have hexpr : ∀ n : Int, Fits (.nonterminal .expr) (.value (.number n)) := .denoted .expr
  have hterm : ∀ n : Int, Fits (.nonterminal .term) (.value (.number n)) := .denoted .term
  have hfactor : ∀ n : Int, Fits (.nonterminal .factor) (.value (.number n)) := .denoted .factor
  have hresult : ∀ v, (∃ result, v = .statement result) →
      Fits (.nonterminal .statement) (.value v) := by
    rintro _ ⟨result, rfl⟩
    exact .denoted .statement (some result)
  cases p with
  | start => exact absurd rfl hp
  | program =>
    match contents, h with
    | [_], .cons (.denoted _ results) .nil =>
      refine ⟨_, .program _, trivial, Work.fits_of_answers ?_⟩
      rintro _ ⟨answer, rfl⟩
      exact .denoted .program answer
  | noStatement =>
    match contents, h with
    | [], .nil => exact ⟨_, .noStatement, trivial, Work.fits_of_done (.denoted .statements [])⟩
  | nextStatement =>
    match contents, h with
    | [_, _], .cons (.denoted _ results) (.cons (.denoted _ result) .nil) =>
      exact ⟨_, .nextStatement _ _, trivial, Work.fits_of_done (fits_statements results result)⟩
  | evaluated =>
    match contents, h with
    | [_, _], .cons (.denoted _ n) (.cons (.token _) .nil) =>
      exact ⟨_, .evaluated n _, trivial, Work.fits_of_answers hresult⟩
  | skipped =>
    match contents, h with
    | [_, _], .cons _ (.cons _ .nil) =>
      exact ⟨_, .skipped _ _, trivial, Work.fits_of_answers hresult⟩
  | empty =>
    match contents, h with
    | [_], .cons _ .nil =>
      exact ⟨_, .empty _, trivial, Work.fits_of_done (.denoted .statement none)⟩
  | sum =>
    match contents, h with
    | [_, _, _], .cons (.denoted _ m) (.cons _ (.cons (.denoted _ n) .nil)) =>
      exact ⟨_, .sum m _ n, trivial, Work.fits_of_number hexpr fun v => id⟩
  | difference =>
    match contents, h with
    | [_, _, _], .cons (.denoted _ m) (.cons _ (.cons (.denoted _ n) .nil)) =>
      exact ⟨_, .difference m _ n, trivial, Work.fits_of_number hexpr fun v => id⟩
  | product =>
    match contents, h with
    | [_, _, _], .cons (.denoted _ m) (.cons _ (.cons (.denoted _ n) .nil)) =>
      exact ⟨_, .product m _ n, trivial, Work.fits_of_number hterm fun v => id⟩
  | quotient =>
    match contents, h with
    | [_, _, _], .cons (.denoted _ m) (.cons _ (.cons (.denoted _ n) .nil)) =>
      exact ⟨_, .quotient m _ n, trivial, Work.fits_of_number hterm fun v => id⟩
  | negation =>
    match contents, h with
    | [_, _], .cons _ (.cons (.denoted _ n) .nil) =>
      exact ⟨_, .negation _ n, trivial, Work.fits_of_number hfactor fun v => id⟩
  | onlyTerm =>
    match contents, h with
    | [_], .cons (.denoted _ n) .nil =>
      exact ⟨_, .onlyTerm _, trivial, Work.fits_of_done (hexpr n)⟩
  | onlyFactor =>
    match contents, h with
    | [_], .cons (.denoted _ n) .nil =>
      exact ⟨_, .onlyFactor _, trivial, Work.fits_of_done (hterm n)⟩
  | literal =>
    match contents, h with
    | [_], .cons (.token (.int n)) .nil =>
      exact ⟨_, .literal _, trivial, Work.fits_of_done (hfactor n)⟩
    | [_], .cons (.token (.mark hint _)) .nil => exact absurd rfl hint
  | group =>
    match contents, h with
    | [_, _, _], .cons _ (.cons (.denoted _ n) (.cons _ .nil)) =>
      exact ⟨_, .group _ _ _, trivial, Work.fits_of_done (hfactor n)⟩
  | call =>
    match contents, h with
    | [_, _, _, _],
      .cons (.token (.ident name)) (.cons _ (.cons (.denoted _ ns) (.cons _ .nil))) =>
      exact ⟨_, .call name _ _ _, Call.clean_call name ns,
        Work.fits_of_number hfactor fun v => id⟩
    | [_, _, _, _], .cons (.token (.mark _ hident)) _ => exact absurd rfl hident
  | firstArgument =>
    match contents, h with
    | [_], .cons (.denoted _ n) .nil =>
      exact ⟨_, .firstArgument _, trivial, Work.fits_of_done (.denoted .arguments [n])⟩
  | nextArgument =>
    match contents, h with
    | [_, _, _], .cons (.denoted _ ns) (.cons (.token _) (.cons (.denoted _ n) .nil)) =>
      exact ⟨_, .nextArgument _ _ _, trivial, Work.fits_of_done (fits_arguments ns n)⟩

structure Proper (cells : List Cell) : Prop where
  path : Path (cells.map Cell.state)
  fits : ∀ cell ∈ cells, Fits cell.state.entry cell.content

namespace Proper

variable {cell : Cell} {cells : List Cell}

theorem start : Proper [⟨.start, .value .nothing⟩] := by
  refine ⟨.start, fun cell hmem => ?_⟩
  rw [List.mem_singleton] at hmem
  rw [hmem]
  exact .denoted .start ()

theorem cons {next : State} {c : Content} (h : Proper cells)
    (hpath : Path (next :: cells.map Cell.state)) (hc : Fits next.entry c) :
    Proper (⟨next, c⟩ :: cells) := by
  refine ⟨hpath, fun other hmem => ?_⟩
  rcases List.mem_cons.mp hmem with rfl | hmem
  · exact hc
  · exact h.fits other hmem

theorem of_append {top : List Cell} (h : Proper (top ++ cell :: cells)) :
    Proper (cell :: cells) := by
  have hpath := h.path
  rw [List.map_append] at hpath
  exact ⟨hpath.of_append, fun other hmem => h.fits other (List.mem_append_right top hmem)⟩

theorem shift {t : Terminal} {v : Value} {next : State} (h : Proper (cell :: cells))
    (haction : action cell.state t = .shift next) (hshaped : Shaped t v) :
    Proper (⟨next, .value v⟩ :: cell :: cells) := by
  refine h.cons (h.path.advance _ (State.advance_of_shift haction)) ?_
  rw [State.entry_of_shift haction]
  exact .token hshaped

theorem reduces {t : Terminal} {p : Production} (h : Proper (cell :: cells))
    (haction : action cell.state t = .reduce p) :
    ∃ work next below, Reduces p (cell :: cells) work next below ∧ work.Clean ∧
      ∀ c, work.Yields c → Proper (⟨next, c⟩ :: below) ∧
        potential (next :: below.map Cell.state) < potential ((cell :: cells).map Cell.state) := by
  obtain ⟨top, r, rs, next, hstates, hpath, hhandle⟩ := h.path.handle haction
  rw [← List.map_cons, List.map_eq_append_iff] at hstates
  obtain ⟨top, rest, hcells, rfl, hrest⟩ := hstates
  obtain ⟨below, belows, rfl, rfl, rfl⟩ := List.map_eq_cons_iff.mp hrest
  rw [hcells] at h ⊢
  have hfits : List.Forall₂ Fits p.rhs (top.reverse.map Cell.content) := by
    rw [← hhandle.rhs_eq, List.map_map, ← List.map_reverse, List.forall₂_map_left_iff,
      List.forall₂_map_right_iff, List.forall₂_same]
    intro cell hmem
    exact h.fits cell (List.mem_append_left _ (List.mem_reverse.mp hmem))
  obtain ⟨work, hasks, hclean, hyields⟩ := asks_of_fits (home_of_reduce haction).1 hfits
  have hrhs : (top.map fun c => c.state.entry).reverse = p.rhs := by
    rw [← hhandle.rhs_eq, List.map_map]
    rfl
  refine ⟨work, next, below :: belows, .intro hrhs hasks hhandle.goto_eq, hclean, ?_⟩
  intro c hc
  rw [List.map_append]
  refine ⟨h.of_append.cons (hhandle.path hpath) ?_, hhandle.potential_lt hpath⟩
  rw [goto_entry hhandle.goto_eq]
  exact hyields c hc

theorem reduces_clean {t : Terminal} {p : Production} {work : Work} {next : State}
    {below : List Cell} (h : Proper (cell :: cells)) (haction : action cell.state t = .reduce p)
    (hreduces : Reduces p (cell :: cells) work next below) :
    work.Clean ∧ ∀ c, work.Yields c → Proper (⟨next, c⟩ :: below) := by
  obtain ⟨work', next', below', hreduces', hclean, hproper⟩ := h.reduces haction
  obtain ⟨rfl, rfl, rfl⟩ := hreduces'.unique hreduces
  exact ⟨hclean, fun c hc => (hproper c hc).1⟩

end Proper

end ShiftReduce.Calculator
