import ShiftReduce.Proofs.Calculator.Patterns

namespace ShiftReduce.Calculator

namespace Lexer

/-- A part of a source that gives a lexeme: a match of a token's pattern, or a character that begins
no match. -/
structure Piece where
  token? : Option Terminal
  text : List Char
  start : Nat

namespace Piece

def stop (p : Piece) : Nat := p.start + byteLength p.text

def span (p : Piece) : Span := ⟨p.start, p.stop⟩

def lexeme (p : Piece) : Lexeme :=
  match p.token? with
  | some .int => numeral p.text p.span
  | some .ident => .ok ⟨.ident, .name (String.ofList p.text), p.span⟩
  | some t => .ok ⟨t, .nothing, p.span⟩
  | none => .error (.character p.span (String.ofList p.text))

end Piece

def Rule.pieces (text : List Char) (pos : Nat) : Rule → List Piece
  | .skip => []
  | .token t => [⟨some t, text, pos⟩]

inductive Lexes : Nat → List Char → List Piece → Prop
  | done {pos} : Lexes pos [] []
  | matched {pos} {rule : Rule} {text rest later} : Longest rule text rest →
      Lexes (pos + byteLength text) rest later →
      Lexes pos (text ++ rest) (rule.pieces text pos ++ later)
  | stray {pos c rest later} : Strays c rest → Lexes (pos + c.utf8Size) rest later →
      Lexes pos (c :: rest) (⟨none, [c], pos⟩ :: later)

namespace Lexes

variable {pos : Nat} {c : Char} {text rest : List Char} {pieces pieces' : List Piece}

theorem exists_lexes (pos : Nat) (text : List Char) : ∃ pieces, Lexes pos text pieces := by
  induction hlength : text.length using Nat.strong_induction_on generalizing pos text with
  | h n ih =>
    cases text with
    | nil => exact ⟨[], .done⟩
    | cons c cs =>
      rw [List.length_cons] at hlength
      cases hp : pattern? c with
      | none =>
        obtain ⟨later, hlater⟩ := ih cs.length (by omega) (pos + c.utf8Size) cs rfl
        exact ⟨_, .stray (strays_iff.mpr hp) hlater⟩
      | some rp =>
        obtain ⟨rule, p⟩ := rp
        have hle := (List.dropWhile_suffix (l := cs) p).length_le
        obtain ⟨later, hlater⟩ := ih _ (by omega) (pos + byteLength (c :: cs.takeWhile p))
          (cs.dropWhile p) rfl
        have hlexes := matched (longest_head hp cs) hlater
        rw [List.cons_append, List.takeWhile_append_dropWhile] at hlexes
        exact ⟨_, hlexes⟩

theorem of_nil (h : Lexes pos [] pieces) : pieces = [] := by
  generalize htext : [] = text at h
  cases h with
  | done => rfl
  | matched hlongest =>
    obtain ⟨c, cs, rfl⟩ := hlongest.exists_cons
    cases htext
  | stray => cases htext

theorem of_longest {rule : Rule} (h : Longest rule text rest)
    (hlexes : Lexes pos (text ++ rest) pieces) :
    ∃ later, Lexes (pos + byteLength text) rest later ∧ pieces = rule.pieces text pos ++ later := by
  generalize hsource : text ++ rest = source at hlexes
  cases hlexes with
  | done =>
    obtain ⟨c, cs, rfl⟩ := h.exists_cons
    cases hsource
  | matched hlongest hlater =>
    obtain ⟨rfl, rfl, rfl⟩ := h.unique hlongest hsource
    exact ⟨_, hlater, rfl⟩
  | stray hstrays => exact absurd h.matched (hstrays _ _ _ hsource)

theorem of_strays (h : Strays c rest) (hlexes : Lexes pos (c :: rest) pieces) :
    ∃ later, Lexes (pos + c.utf8Size) rest later ∧ pieces = ⟨none, [c], pos⟩ :: later := by
  generalize hsource : c :: rest = source at hlexes
  cases hlexes with
  | done => cases hsource
  | matched hlongest => exact absurd hlongest.matched (h _ _ _ hsource.symm)
  | stray _ hlater =>
    cases hsource
    exact ⟨_, hlater, rfl⟩

theorem unique (h : Lexes pos text pieces) (h' : Lexes pos text pieces') : pieces = pieces' := by
  induction h generalizing pieces' with
  | done => exact h'.of_nil.symm
  | matched hlongest _ ih =>
    obtain ⟨later, hlater, rfl⟩ := of_longest hlongest h'
    exact congrArg _ (ih hlater)
  | stray hstrays _ ih =>
    obtain ⟨later, hlater, rfl⟩ := of_strays hstrays h'
    exact congrArg _ (ih hlater)

end Lexes

section Scan

variable {pos : Nat} {c : Char} {text rest : List Char}

theorem scan_blanks (h : ∀ c ∈ text, isBlank c = true) :
    scan pos (text ++ rest) = scan (pos + byteLength text) rest := by
  induction text generalizing pos with
  | nil => rfl
  | cons c cs ih =>
    obtain ⟨hc, hcs⟩ := List.forall_mem_cons.mp h
    rw [List.cons_append, scan, if_pos hc, ih hcs, byteLength_cons, Nat.add_assoc]

theorem lexeme_mark {t : Terminal} (h : punctuation? c = some t) :
    Piece.lexeme ⟨some t, [c], pos⟩ = symbol c ⟨pos, pos + c.utf8Size⟩ := by
  unfold punctuation? at h
  split at h <;> cases h <;> rfl

theorem lexeme_stray (h : punctuation? c = none) :
    Piece.lexeme ⟨none, [c], pos⟩ = symbol c ⟨pos, pos + c.utf8Size⟩ := by
  unfold symbol
  rw [h]
  rfl

theorem scan_of_pattern {rule : Rule} {p : Char → Bool} (h : pattern? c = some (rule, p))
    (cs : List Char) : scan pos (c :: cs) =
      (rule.pieces (c :: cs.takeWhile p) pos).map Piece.lexeme ++
        scan (pos + byteLength (c :: cs.takeWhile p)) (cs.dropWhile p) := by
  unfold pattern? at h
  split at h
  next hblank =>
    cases h
    have hcs : scan (pos + c.utf8Size) (cs.takeWhile isBlank ++ cs.dropWhile isBlank) = _ :=
      scan_blanks fun _ hd => List.mem_takeWhile_imp hd
    rw [List.takeWhile_append_dropWhile] at hcs
    rw [scan, if_pos hblank, hcs, Nat.add_assoc]
    rfl
  split at h
  next hblank hcomment =>
    cases h
    rw [scan, if_neg hblank, if_pos hcomment]
    dsimp only
    rw [Nat.add_assoc]
    rfl
  split at h
  next hblank hcomment hdigit =>
    cases h
    rw [scan, if_neg hblank, if_neg hcomment, if_pos hdigit]
    dsimp only
    rw [Nat.add_assoc]
    rfl
  split at h
  next hblank hcomment hdigit hletter =>
    cases h
    rw [scan, if_neg hblank, if_neg hcomment, if_neg hdigit, if_pos hletter]
    dsimp only
    rw [Nat.add_assoc]
    rfl
  next hblank hcomment hdigit hletter =>
    obtain ⟨t, ht, hrule⟩ := Option.map_eq_some_iff.mp h
    cases hrule
    have htake : cs.takeWhile (fun _ => false) = [] := by simp
    have hdrop : cs.dropWhile (fun _ => false) = cs := by simp
    rw [scan, if_neg hblank, if_neg hcomment, if_neg hdigit, if_neg hletter, htake, hdrop]
    exact congrArg (· :: _) (lexeme_mark ht).symm

theorem Longest.scan {rule : Rule} (h : Longest rule text rest) :
    Lexer.scan pos (text ++ rest) =
      (rule.pieces text pos).map Piece.lexeme ++ Lexer.scan (pos + byteLength text) rest := by
  obtain ⟨c, cs, rfl⟩ := h.exists_cons
  obtain ⟨p, hp, hcs, hrest⟩ := longest_cons_iff.mp h
  rw [List.cons_append, scan_of_pattern hp, takeWhile_run hcs hrest, dropWhile_run hcs hrest]

theorem Strays.scan (h : Strays c rest) :
    Lexer.scan pos (c :: rest) =
      Piece.lexeme ⟨none, [c], pos⟩ :: Lexer.scan (pos + c.utf8Size) rest := by
  have hp := strays_iff.mp h
  unfold pattern? at hp
  split at hp
  next => cases hp
  split at hp
  next => cases hp
  split at hp
  next => cases hp
  split at hp
  next => cases hp
  next hblank hcomment hdigit hletter =>
    rw [Lexer.scan, if_neg hblank, if_neg hcomment, if_neg hdigit, if_neg hletter,
      lexeme_stray (Option.map_eq_none_iff.mp hp)]

theorem Lexes.scan_eq {pieces : List Piece} (h : Lexes pos text pieces) :
    scan pos text = pieces.map Piece.lexeme ++
      [.ok ⟨.eof, .nothing, ⟨pos + byteLength text, pos + byteLength text⟩⟩] := by
  induction h with
  | done =>
    rw [scan]
    rfl
  | matched hlongest _ ih =>
    rw [hlongest.scan, ih, byteLength_append, Nat.add_assoc, List.map_append, List.append_assoc]
  | stray hstrays _ ih =>
    rw [hstrays.scan, ih, byteLength_cons, Nat.add_assoc]
    rfl

end Scan

end Lexer

end ShiftReduce.Calculator
