import ShiftReduce.CommandLine.Report
import ShiftReduce.Proofs.Calculator.Exact
import ShiftReduce.Proofs.Calculator.Layout

namespace ShiftReduce.Calculator

open CommandLine (resultLine)

def decimal (n : Nat) : Item :=
  if n < tooLarge then .ok (.int, .number n) else .error (.numeral .tooLarge)

namespace Lexer

theorem longest_decimal (n : Nat) : Longest (.token .int) (Nat.toDigits 10 n) [';'] := by
  have hdigits : ∀ c ∈ Nat.toDigits 10 n, Digit c := digits_of_number 0 n
  obtain ⟨c, cs, hcs⟩ := List.exists_cons_of_ne_nil (Nat.toDigits_ne_nil (n := n) (b := 10))
  rw [hcs] at hdigits ⊢
  obtain ⟨hc, hrest⟩ := List.forall_mem_cons.mp hdigits
  refine longest_cons_iff.mpr
    ⟨_, pattern?_of_digit hc, fun d hd => isDigit_iff.mpr (hrest d hd), ?_⟩
  rintro d ⟨⟩
  rfl

theorem lexeme_decimal (n pos : Nat) :
    item (Piece.lexeme ⟨some .int, Nat.toDigits 10 n, pos⟩) = decimal n := by
  have hvalue : Nat.ofDigitChars 10 (Nat.toDigits 10 n) 0 = n := ofDigitChars_number 0 n
  rw [Piece.lexeme_int Nat.toDigits_ne_nil (digits_of_number 0 n), hvalue, decimal]
  split <;> rfl

theorem scan_mark {c : Char} {t : Terminal} (h : punctuation? c = some t) (pos : Nat)
    (rest : List Char) : (scan pos (c :: rest)).map item =
      .ok (t, .nothing) :: (scan (pos + c.utf8Size) rest).map item := by
  have hlongest : Longest (.token t) [c] rest :=
    longest_cons_iff.mpr ⟨_, pattern?_of_punctuation h, List.forall_mem_nil _, fun _ _ => rfl⟩
  have hlexeme : Piece.lexeme ⟨some t, [c], pos⟩ = .ok ⟨t, .nothing, ⟨pos, pos + c.utf8Size⟩⟩ := by
    rw [lexeme_mark h, symbol, h]
  rw [← List.singleton_append, hlongest.scan, List.map_append]
  exact congrArg (item · :: _) hlexeme

theorem scan_decimal (n pos : Nat) :
    (scan pos (Nat.toDigits 10 n ++ [';'])).map item = [decimal n, .ok semicolon, eof] := by
  rw [(longest_decimal n).scan, List.map_append, scan_mark rfl, scan]
  exact congrArg (· :: _) (lexeme_decimal n pos)

end Lexer

section Items

theorem items_nonnegative (n : Nat) :
    items (resultLine (some n) ++ ";") = [decimal n, .ok semicolon, eof] := by
  have htext : (resultLine (some n) ++ ";").toList = Nat.toDigits 10 n ++ [';'] := by
    rw [String.toList_append, ← Nat.toList_repr]
    rfl
  rw [items, lexemes, htext, Lexer.scan_decimal]

theorem items_negative (n : Nat) : items (resultLine (some (.negSucc n)) ++ ";") =
    [.ok (.minus, .nothing), decimal (n + 1), .ok semicolon, eof] := by
  have hline : resultLine (some (.negSucc n)) = "-" ++ Nat.repr (n + 1) := rfl
  have htext : (resultLine (some (.negSucc n)) ++ ";").toList =
      '-' :: (Nat.toDigits 10 (n + 1) ++ [';']) := by
    rw [hline, String.toList_append, String.toList_append, Nat.toList_repr]
    rfl
  rw [items, lexemes, htext, Lexer.scan_mark rfl, Lexer.scan_decimal]

end Items

def Tree.printed : Int → Tree .factor
  | .ofNat n => .literal n
  | .negSucc n => .negation (.literal (n + 1 : Nat))

def Tree.single (f : Tree .factor) : Tree .program :=
  .program (.nextStatement .noStatement (.evaluated (.onlyTerm (.onlyFactor f))))

variable {σ : Type} {n : Int}

theorem spells_printed (hrange : InRange n) (hn : n ≠ -9223372036854775808) :
    Spells (resultLine (some n) ++ ";") (Tree.printed n).single.yield := by
  cases n with
  | ofNat n =>
    have hsmall : n < tooLarge := (inRange_natCast n).mp hrange
    rw [Spells, Int.ofNat_eq_natCast, items_nonnegative, decimal, if_pos hsmall]
    rfl
  | negSucc n =>
    have hsmall : n + 1 < tooLarge := by
      unfold InRange at hrange
      unfold tooLarge
      omega
    rw [Spells, items_negative, decimal, if_pos hsmall]
    rfl

theorem Evaluator.neg_ok {k : Int} (h : neg k = .ok n) (u : σ) : actions.neg k u = .ok n u :=
  congrFun (congrArg actions.liftExcept h) u

theorem perform_printed (hrange : InRange n) (u : σ) :
    (Tree.printed n).perform Evaluator.actions u = .ok n u := by
  cases n with
  | ofNat n => rfl
  | negSucc n =>
    have hliteral : (Tree.literal (n + 1 : Nat)).perform Evaluator.actions u =
        .ok ((n + 1 : Nat) : Int) u := rfl
    have hneg : Evaluator.neg (n + 1 : Nat) = .ok (.negSucc n) := by
      rw [Evaluator.neg, Int.neg_ofNat_succ, Evaluator.checked, if_pos hrange]
    rw [Tree.printed, Tree.perform, Engine.bind_of_ok hliteral]
    exact Evaluator.neg_ok hneg u

theorem perform_single {f : Tree .factor} {u u' : σ}
    (h : f.perform Evaluator.actions u = .ok n u') :
    f.single.perform Evaluator.actions u = .ok [some n] u' := by
  have hvalue : (Tree.onlyTerm (.onlyFactor f)).perform Evaluator.actions u = .ok n u' := h
  have hstatement : (Tree.evaluated (.onlyTerm (.onlyFactor f))).perform Evaluator.actions u =
      .ok (some (some n)) u' := by
    rw [Tree.perform, Engine.bind_of_ok hvalue]
    rfl
  have hstatements : (Tree.nextStatement .noStatement
      (.evaluated (.onlyTerm (.onlyFactor f)))).perform Evaluator.actions u =
      .ok [some (some n)] u' := by
    rw [Tree.perform]
    exact Engine.bind_of_ok hstatement
  rw [Tree.single, Tree.perform, Engine.bind_of_ok hstatements]
  rfl

theorem calculate_performs (user : σ) (history : List String) {source : String}
    {tree : Tree .program} (hsource : Spells source tree.yield) :
    ∃ u, Performed (tree.perform Evaluator.actions u) (calculate user history source) := by
  have hcapacity : (served Evaluator.actions defaultConfig user history).stack.capacity = none :=
    served_capacity Evaluator.actions_answers defaultConfig_recovering rfl user history
  exact ⟨_, parse_performs (fun _ _ => rfl) rfl hcapacity hsource⟩

theorem calculate_least (user : σ) (history : List String) :
    ∃ t, calculate user history (resultLine (some (-9223372036854775808)) ++ ";") =
      .error (.raised (.numeral .tooLarge)) t := by
  obtain ⟨r, hsummary, hr⟩ := calculate_evaluates user history
    (resultLine (some (-9223372036854775808)) ++ ";")
  have hitems : items (resultLine (some (-9223372036854775808)) ++ ";") =
      [.ok (.minus, .nothing), .error (.numeral .tooLarge), .ok semicolon, eof] :=
    items_negative 9223372036854775807
  rw [hitems] at hr
  have hmoved := hr.of_moved (.decided nofun (Boundary.start.decides (by decide) (.shift rfl)))
  cases hmoved with
  | malformed =>
    obtain ⟨e, t, hcalculate, he⟩ := raised_of_summary hsummary
    cases e with
    | numeral => exact ⟨t, he ▸ hcalculate⟩
    | _ => cases he

/-- A number that is printed is read again, unless it is the least one. -/
theorem calculate_printed (user : σ) (history : List String) (hrange : InRange n) :
    ∃ t, calculate user history (resultLine (some n) ++ ";") =
      if n = -9223372036854775808 then .error (.raised (.numeral .tooLarge)) t
      else .ok ⟨[some n], []⟩ t := by
  by_cases hn : n = -9223372036854775808
  · simp only [if_pos hn]
    exact hn ▸ calculate_least user history
  · obtain ⟨u, hperformed⟩ := calculate_performs user history (spells_printed hrange hn)
    rw [perform_single (perform_printed hrange u)] at hperformed
    simp only [if_neg hn]
    exact hperformed.eq_ok

theorem calculate_printed_negative : InRange (-9223372036854775807) ∧
    resultLine (some (-9223372036854775807)) ++ ";" = "-9223372036854775807;" ∧
      ∃ t, calculate () ["1 / 0;"] "-9223372036854775807;" =
        .ok ⟨[some (-9223372036854775807)], []⟩ t := by
  have hrange : InRange (-9223372036854775807) := by decide
  have hline : resultLine (some (-9223372036854775807)) ++ ";" = "-9223372036854775807;" := by
    decide +kernel
  obtain ⟨t, hcalculate⟩ := calculate_printed () ["1 / 0;"] hrange
  rw [if_neg (by decide), hline] at hcalculate
  exact ⟨hrange, hline, t, hcalculate⟩

theorem calculate_printed_least : InRange (-9223372036854775808) ∧
    (∃ t, calculate () [] "-9223372036854775807 - 1;" =
      .ok ⟨[some (-9223372036854775808)], []⟩ t) ∧
    ¬ ∃ t, calculate () [] (resultLine (some (-9223372036854775808)) ++ ";") =
      .ok ⟨[some (-9223372036854775808)], []⟩ t := by
  have hanswer : answer? (calculate () [] "-9223372036854775807 - 1;") =
      some ⟨[some (-9223372036854775808)], []⟩ := by decide +kernel
  refine ⟨by decide, ok_of_answer? hanswer, ?_⟩
  rintro ⟨t, hok⟩
  obtain ⟨t', herror⟩ := calculate_least () []
  cases herror.symm.trans hok

end ShiftReduce.Calculator
