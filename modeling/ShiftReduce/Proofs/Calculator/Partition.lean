import ShiftReduce.Proofs.Calculator.Lexing

namespace ShiftReduce.Calculator

def tooLarge : Nat := 9223372036854775808

section Decimal

variable {cs : List Char} {n : Nat}

theorem inRange_natCast (n : Nat) : InRange n ↔ n < tooLarge := by
  rw [InRange, tooLarge]
  omega

theorem le_ofDigitChars (n : Nat) (cs : List Char) : n ≤ Nat.ofDigitChars 10 cs n := by
  induction cs generalizing n with
  | nil => exact Nat.le_refl n
  | cons c cs ih =>
    rw [Nat.ofDigitChars_cons]
    exact Nat.le_trans (by omega) (ih _)

theorem readDigits_eq (hcs : ∀ c ∈ cs, Lexer.Digit c) (hn : n < tooLarge) :
    Numeral.readDigits 1 .tooLarge n cs =
      if Nat.ofDigitChars 10 cs n < tooLarge then .ok (Nat.ofDigitChars 10 cs n)
      else .error .tooLarge := by
  induction cs generalizing n with
  | nil => exact (if_pos hn).symm
  | cons c cs ih =>
    obtain ⟨hc, hcs⟩ := List.forall_mem_cons.mp hcs
    have hnext : (n : Int) * 10 + 1 * Numeral.digit c = (10 * n + Numeral.digit c : Nat) := by
      push_cast
      omega
    rw [Numeral.readDigits, if_pos (Lexer.isDigit_iff.mpr hc), hnext, Nat.ofDigitChars_cons]
    by_cases hrange : 10 * n + Numeral.digit c < tooLarge
    · rw [if_pos ((inRange_natCast _).mpr hrange)]
      exact ih hcs hrange
    · have hle := le_ofDigitChars (10 * n + Numeral.digit c) cs
      rw [if_neg (mt (inRange_natCast _).mp hrange), if_neg]
      exact fun h => hrange (Nat.lt_of_le_of_lt hle h)

theorem read_digits (hne : cs ≠ []) (hcs : ∀ c ∈ cs, Lexer.Digit c) :
    Numeral.read cs = if Nat.ofDigitChars 10 cs 0 < tooLarge then .ok (Nat.ofDigitChars 10 cs 0)
      else .error .tooLarge := by
  rw [← readDigits_eq hcs (by decide)]
  unfold Numeral.read
  split
  · exact absurd rfl hne
  · exact absurd (hcs '+' (by simp)) (by decide)
  · exact absurd (hcs '-' (by simp)) (by decide)
  · exact absurd (hcs '+' (by simp)) (by decide)
  · exact absurd (hcs '-' (by simp)) (by decide)
  · rfl

end Decimal

namespace Lexer

def Cuts (pos : Nat) (source : List Char) (start : Nat) (text rest : List Char) : Prop :=
  ∃ before, source = before ++ text ++ rest ∧ start = pos + byteLength before

def Void (text rest : List Char) : Prop :=
  (∀ c ∈ text, Blank c) ∨
    ∃ body, text = '#' :: body ∧ '\n' ∉ body ∧ ∀ d ∈ rest.head?, d = '\n'

def Piece.Ends (p : Piece) (rest : List Char) : Prop :=
  ∀ d ∈ rest.head?, (p.token? = some .int → ¬ Digit d) ∧
    (p.token? = some .ident → ¬ (Letter d ∨ Digit d))

/-- How pieces share what is left of a source at `pos`. -/
structure Shares (pos : Nat) (source : List Char) (pieces : List Piece) : Prop where
  cut : ∀ p ∈ pieces, ∃ rest, Cuts pos source p.start p.text rest ∧ p.Ends rest
  nonempty : ∀ p ∈ pieces, p.start < p.stop
  ordered : pieces.Pairwise fun p q => p.stop ≤ q.start
  covers : ∀ i, pos ≤ i → i < pos + byteLength source → (∃ p ∈ pieces, p.start ≤ i ∧ i < p.stop) ∨
    ∃ start text rest, Cuts pos source start text rest ∧ Void text rest ∧ start ≤ i ∧
      i < start + byteLength text ∧
      ∀ p ∈ pieces, p.stop ≤ start ∨ start + byteLength text ≤ p.start

structure Piece.Faithful (p : Piece) : Prop where
  character : ∀ span text, p.lexeme = .error (.character span text) →
    ∃ c, p.text = [c] ∧ text = c.toString ∧ span = p.span ∧
      ∀ (rule : Rule) (more : List Char), ¬ rule.Matches (c :: more)
  numeral : (∀ c ∈ p.text, Digit c) → p.token? = some .int ∧
    p.lexeme = if Nat.ofDigitChars 10 p.text 0 < tooLarge
      then .ok ⟨.int, .number (Nat.ofDigitChars 10 p.text 0), p.span⟩
      else .error (.numeral .tooLarge)
  inner : ∀ t, p.lexeme = .ok t → t.terminal ≠ .eof ∧ t.span = p.span

def ending (stop : Nat) : Lexeme := .ok ⟨.eof, .nothing, ⟨stop, stop⟩⟩

structure Reader where
  coming : List Piece
  stop : Nat
  finished : Bool

namespace Reader

def opened (source : String) (pieces : List Piece) : Reader := ⟨pieces, source.utf8ByteSize, false⟩

def next (r : Reader) : Option Lexeme × Reader :=
  if r.finished then (none, r)
  else match r.coming with
    | [] => (some (ending r.stop), { r with finished := true })
    | p :: rest => (some p.lexeme, { r with coming := rest })

def nth (r : Reader) : Nat → Option Lexeme
  | 0 => r.next.1
  | n + 1 => r.next.2.nth n

theorem nth_finished (coming : List Piece) (stop n : Nat) :
    nth ⟨coming, stop, true⟩ n = none := by
  induction n with
  | zero => rfl
  | succ n ih => exact ih

theorem nth_eq (coming : List Piece) (stop n : Nat) :
    nth ⟨coming, stop, false⟩ n = (coming.map Piece.lexeme ++ [ending stop])[n]? := by
  induction coming generalizing n with
  | nil =>
    cases n with
    | zero => rfl
    | succ n => exact nth_finished [] stop n
  | cons p rest ih =>
    cases n with
    | zero => rfl
    | succ n => exact ih n

end Reader

section Cut

variable {pos start : Nat} {source text rest run : List Char}

theorem byteLength_pos (h : text ≠ []) : 0 < byteLength text := by
  cases text with
  | nil => exact absurd rfl h
  | cons c cs => exact Nat.add_pos_left c.utf8Size_pos _

theorem Cuts.head : Cuts pos (text ++ rest) pos text rest := ⟨[], rfl, rfl⟩

theorem Cuts.later (h : Cuts (pos + byteLength run) source start text rest) :
    Cuts pos (run ++ source) start text rest := by
  obtain ⟨before, rfl, rfl⟩ := h
  refine ⟨run ++ before, by simp, ?_⟩
  rw [byteLength_append, Nat.add_assoc]

theorem Cuts.le (h : Cuts pos source start text rest) : pos ≤ start := by
  obtain ⟨before, -, rfl⟩ := h
  exact Nat.le_add_right pos _

end Cut

namespace Shares

variable {pos start : Nat} {source text rest : List Char} {pieces : List Piece} {p : Piece}

theorem nil : Shares pos [] [] where
  cut := List.forall_mem_nil _
  nonempty := List.forall_mem_nil _
  ordered := .nil
  covers _ hge hlt := absurd hlt (Nat.not_lt.mpr hge)

theorem le_start (h : Shares pos source pieces) (hp : p ∈ pieces) : pos ≤ p.start := by
  obtain ⟨rest, hcuts, -⟩ := h.cut p hp
  exact hcuts.le

theorem skip (hvoid : Void text rest) (h : Shares (pos + byteLength text) rest pieces) :
    Shares pos (text ++ rest) pieces where
  cut p hp := by
    obtain ⟨after, hcuts, hends⟩ := h.cut p hp
    exact ⟨after, hcuts.later, hends⟩
  nonempty := h.nonempty
  ordered := h.ordered
  covers i hge hlt := by
    rw [byteLength_append] at hlt
    rcases Nat.lt_or_ge i (pos + byteLength text) with hinside | hbeyond
    · exact .inr ⟨pos, text, rest, .head, hvoid, hge, hinside, fun p hp => .inr (h.le_start hp)⟩
    · refine (h.covers i hbeyond (by omega)).imp_right ?_
      rintro ⟨start, skipped, after, hcuts, hskipped⟩
      exact ⟨start, skipped, after, hcuts.later, hskipped⟩

theorem cons (hne : text ≠ []) {token? : Option Terminal}
    (hends : Piece.Ends ⟨token?, text, pos⟩ rest) (h : Shares (pos + byteLength text) rest pieces) :
    Shares pos (text ++ rest) (⟨token?, text, pos⟩ :: pieces) where
  cut := by
    refine List.forall_mem_cons.mpr ⟨⟨rest, .head, hends⟩, fun p hp => ?_⟩
    obtain ⟨after, hcuts, hends⟩ := h.cut p hp
    exact ⟨after, hcuts.later, hends⟩
  nonempty := List.forall_mem_cons.mpr ⟨Nat.lt_add_of_pos_right (byteLength_pos hne), h.nonempty⟩
  ordered := .cons (fun p hp => h.le_start hp) h.ordered
  covers i hge hlt := by
    rw [byteLength_append] at hlt
    rcases Nat.lt_or_ge i (pos + byteLength text) with hinside | hbeyond
    · exact .inl ⟨_, List.mem_cons_self, hge, hinside⟩
    · rcases h.covers i hbeyond (by omega) with ⟨p, hp, hshare⟩ | hskipped
      · exact .inl ⟨p, List.mem_cons_of_mem _ hp, hshare⟩
      · obtain ⟨start, skipped, after, hcuts, hvoid, hle, hi, hclear⟩ := hskipped
        exact .inr ⟨start, skipped, after, hcuts.later, hvoid, hle, hi,
          List.forall_mem_cons.mpr ⟨.inl hcuts.le, hclear⟩⟩

end Shares

section Longest

variable {pos : Nat} {text rest : List Char}

theorem Longest.ne_nil {rule : Rule} (h : Longest rule text rest) : text ≠ [] := by
  obtain ⟨c, cs, rfl⟩ := h.exists_cons
  exact List.cons_ne_nil c cs

theorem Longest.void (h : Longest .skip text rest) : Void text rest := by
  cases h.matched with
  | blanks _ hblank => exact .inl hblank
  | comment hbody =>
    obtain ⟨p, hp, -, hrest⟩ := longest_cons_iff.mp h
    cases hp
    exact .inr ⟨_, rfl, hbody, fun d hd => not_not.mp (of_decide_eq_false (hrest d hd))⟩

theorem Longest.ends {t : Terminal} (h : Longest (.token t) text rest) :
    Piece.Ends ⟨some t, text, pos⟩ rest := by
  intro d hd
  obtain ⟨rest', rfl⟩ := List.head?_eq_some_iff.mp hd
  constructor
  · rintro ⟨⟩ hdigit
    refine h.stops (.token .int) ?_
    cases h.matched with
    | int _ htext =>
      exact .int (List.append_ne_nil_of_right_ne_nil _ (List.cons_ne_nil d []))
        (List.forall_mem_append.mpr ⟨htext, List.forall_mem_singleton.mpr hdigit⟩)
    | mark ht => exact absurd ht (by decide)
  · rintro ⟨⟩ hgoes
    refine h.stops (.token .ident) ?_
    cases h.matched with
    | ident hc htext =>
      exact .ident hc (List.forall_mem_append.mpr ⟨htext, List.forall_mem_singleton.mpr hgoes⟩)
    | mark ht => exact absurd ht (by decide)

theorem Strays.not_matches {c : Char} (h : Strays c rest) (rule : Rule) (more : List Char) :
    ¬ rule.Matches (c :: more) := by
  intro hmatched
  obtain ⟨p, hp, -⟩ := matches_cons_iff.mp hmatched
  cases (strays_iff.mp h).symm.trans hp

end Longest

namespace Piece

variable {text : List Char} {start : Nat}

theorem lexeme_token (t : Terminal) (text : List Char) (start : Nat) :
    (∃ v, lexeme ⟨some t, text, start⟩ = .ok ⟨t, v, span ⟨some t, text, start⟩⟩) ∨
      ∃ e, lexeme ⟨some t, text, start⟩ = .error (.numeral e) := by
  cases t with
  | int =>
    show (∃ v, Lexer.numeral text _ = _) ∨ ∃ e, Lexer.numeral text _ = _
    rw [Lexer.numeral]
    cases Numeral.read text with
    | ok n => exact .inl ⟨_, rfl⟩
    | error e => exact .inr ⟨e, rfl⟩
  | _ => exact .inl ⟨_, rfl⟩

theorem lexeme_int (hne : text ≠ []) (hdigits : ∀ c ∈ text, Digit c) :
    lexeme ⟨some .int, text, start⟩ = if Nat.ofDigitChars 10 text 0 < tooLarge
      then .ok ⟨.int, .number (Nat.ofDigitChars 10 text 0), span ⟨some .int, text, start⟩⟩
      else .error (.numeral .tooLarge) := by
  show Lexer.numeral text _ = _
  rw [Lexer.numeral, read_digits hne hdigits]
  by_cases hrange : Nat.ofDigitChars 10 text 0 < tooLarge
  · simp only [if_pos hrange]
  · simp only [if_neg hrange]

theorem faithful_token {t : Terminal} (h : Rule.Matches (.token t) text) :
    Faithful ⟨some t, text, start⟩ where
  character span' text' herror := by
    rcases lexeme_token t text start with ⟨v, hlexeme⟩ | ⟨e, hlexeme⟩ <;>
      cases hlexeme.symm.trans herror
  numeral hdigits := by
    cases text with
    | nil => exact absurd h (not_matches_nil _)
    | cons c cs =>
      obtain ⟨p, hp, -⟩ := matches_cons_iff.mp h
      have hc : Digit c := hdigits c List.mem_cons_self
      cases hp.symm.trans (pattern?_of_digit hc)
      exact ⟨rfl, lexeme_int (List.cons_ne_nil c cs) hdigits⟩
  inner u hu := by
    rcases lexeme_token t text start with ⟨v, hlexeme⟩ | ⟨e, hlexeme⟩
    · cases hlexeme.symm.trans hu
      refine ⟨?_, rfl⟩
      rintro rfl
      cases h with
      | mark ht => exact absurd ht (by decide)
    · cases hlexeme.symm.trans hu

theorem faithful_stray {c : Char}
    (h : ∀ (rule : Rule) (more : List Char), ¬ rule.Matches (c :: more)) :
    Faithful ⟨none, [c], start⟩ where
  character := by
    rintro span text ⟨⟩
    exact ⟨c, rfl, (String.singleton_eq_ofList).symm, rfl, h⟩
  numeral hdigits := absurd (.int (List.cons_ne_nil c []) hdigits) (h (.token .int) [])
  inner := by rintro t ⟨⟩

end Piece

namespace Lexes

variable {pos : Nat} {text : List Char} {pieces : List Piece}

theorem shares (h : Lexes pos text pieces) : Shares pos text pieces := by
  induction h with
  | done => exact .nil
  | @matched _ rule _ _ _ hlongest _ ih =>
    cases rule with
    | skip => exact ih.skip hlongest.void
    | token t => exact ih.cons hlongest.ne_nil hlongest.ends
  | stray _ _ ih =>
    refine ih.cons (List.cons_ne_nil _ []) fun d _ => ?_
    constructor <;> rintro ⟨⟩

theorem faithful (h : Lexes pos text pieces) : ∀ p ∈ pieces, p.Faithful := by
  induction h with
  | done => exact List.forall_mem_nil _
  | @matched _ rule _ _ _ hlongest _ ih =>
    cases rule with
    | skip => exact ih
    | token t => exact List.forall_mem_cons.mpr ⟨Piece.faithful_token hlongest.matched, ih⟩
  | stray hstrays _ ih =>
    exact List.forall_mem_cons.mpr ⟨Piece.faithful_stray hstrays.not_matches, ih⟩

theorem length_le (h : Lexes pos text pieces) : pieces.length ≤ byteLength text := by
  induction h with
  | done => exact Nat.le_refl 0
  | @matched _ rule _ _ _ hlongest _ ih =>
    have hpos := byteLength_pos hlongest.ne_nil
    rw [List.length_append, byteLength_append]
    cases rule with
    | skip => exact Nat.add_le_add (Nat.zero_le _) ih
    | token t => exact Nat.add_le_add hpos ih
  | @stray _ c _ _ _ _ ih =>
    rw [List.length_cons, byteLength_cons, Nat.add_comm]
    exact Nat.add_le_add c.utf8Size_pos ih

end Lexes

/-- The pieces of a source are settled by its patterns. They share the source in order, what they
leave over has no meaning, and the lexemes are what they tell and the end of the source, which comes
once and then nothing. -/
theorem lexemes_partition (source : String) : ∃ pieces : List Piece,
    (∀ found, Lexes 0 source.toList found ↔ found = pieces) ∧
    Shares 0 source.toList pieces ∧ (∀ p ∈ pieces, p.Faithful) ∧
    lexemes source = pieces.map Piece.lexeme ++ [ending source.utf8ByteSize] ∧
    (lexemes source).length ≤ source.utf8ByteSize + 1 ∧
    ∀ n, (Reader.opened source pieces).nth n = (lexemes source)[n]? := by
  obtain ⟨pieces, hpieces⟩ := Lexes.exists_lexes 0 source.toList
  have hsize : byteLength source.toList = source.utf8ByteSize := by
    rw [byteLength_ofList, String.ofList_toList]
  have hlexemes : lexemes source = pieces.map Piece.lexeme ++ [ending source.utf8ByteSize] := by
    rw [lexemes, hpieces.scan_eq, Nat.zero_add, hsize]
    rfl
  refine ⟨pieces, fun found => ⟨fun hfound => hfound.unique hpieces, ?_⟩, hpieces.shares,
    hpieces.faithful, hlexemes, ?_, fun n => ?_⟩
  · rintro rfl
    exact hpieces
  · rw [hlexemes, List.length_append, List.length_map, ← hsize]
    exact Nat.add_le_add_right hpieces.length_le 1
  · rw [hlexemes]
    exact Reader.nth_eq pieces _ n

example : lexemes "é 0012\n9223372036854775808;#é" =
    [.error (.character ⟨0, 2⟩ "é"), .ok ⟨.int, .number 12, ⟨3, 7⟩⟩, .error (.numeral .tooLarge),
      .ok ⟨.semicolon, .nothing, ⟨27, 28⟩⟩, ending 31] := by
  decide +kernel

end Lexer

end ShiftReduce.Calculator
