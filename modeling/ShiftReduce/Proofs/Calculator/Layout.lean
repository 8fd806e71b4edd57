import ShiftReduce.Proofs.Calculator.Partition

namespace ShiftReduce.Calculator

namespace Lexer

/-- What may stand beside a token: a blank, or a comment with the end of its line. -/
inductive Separator : Type
  | blank (c : Char) (h : Blank c)
  | comment (body : List Char) (h : '\n' ∉ body)

def Separator.text : Separator → List Char
  | .blank c _ => [c]
  | .comment body _ => '#' :: body ++ ['\n']

def gapText (gap : List Separator) : List Char := gap.flatMap Separator.text

inductive Renders : Terminal × Value → List Char → Prop
  | int (zeros : Nat) {n : Nat} : n < tooLarge →
      Renders (.int, .number n) (List.replicate zeros '0' ++ Nat.toDigits 10 n)
  | ident {text} : Rule.Matches (.token .ident) text →
      Renders (.ident, .name (String.ofList text)) text
  | mark {t} : t ∈ punctuation → Renders (t, .nothing) t.label.toList

structure Written where
  token : Terminal × Value
  text : List Char
  renders : Renders token text
  after : List Separator

abbrev Line := List Written

namespace Line

def text (line : Line) : List Char := line.flatMap fun w => w.text ++ gapText w.after

def place (pos : Nat) : Line → List Token
  | [] => []
  | w :: rest =>
    ⟨w.token.1, w.token.2, ⟨pos, pos + byteLength w.text⟩⟩ ::
      place (pos + byteLength (w.text ++ gapText w.after)) rest

end Line

structure Layout where
  lead : List Separator
  line : Line
  apart : ∀ w ∈ line.dropLast, w.after ≠ []

namespace Layout

variable (layout : Layout)

def word : Word := layout.line.map fun w => w.token

def text : List Char := gapText layout.lead ++ layout.line.text

def source : String := String.ofList layout.text

def tokens : List Token := layout.line.place (byteLength (gapText layout.lead))

end Layout

section Gap

variable {pos : Nat} {gap : List Separator} {text rest : List Char}

def Parted (rest : List Char) : Prop := ∀ d ∈ rest.head?, Separates d

theorem Separator.parted (s : Separator) (rest : List Char) : Parted (s.text ++ rest) := by
  cases s with
  | blank c h =>
    rintro d ⟨⟩
    exact .inl h
  | comment body h =>
    rintro d ⟨⟩
    exact .inr rfl

theorem gapText_cons (s : Separator) (gap : List Separator) :
    gapText (s :: gap) = s.text ++ gapText gap := List.flatMap_cons

theorem parted_gapText (hne : gap ≠ []) (rest : List Char) : Parted (gapText gap ++ rest) := by
  cases gap with
  | nil => exact absurd rfl hne
  | cons s gap =>
    rw [gapText_cons, List.append_assoc]
    exact s.parted _

theorem Separator.scan (s : Separator) :
    Lexer.scan pos (s.text ++ rest) = Lexer.scan (pos + byteLength s.text) rest := by
  cases s with
  | blank c h => exact scan_blanks (List.forall_mem_singleton.mpr (isBlank_iff.mpr h))
  | comment body h =>
    have hlongest : Longest .skip ('#' :: body) ('\n' :: rest) := by
      refine longest_cons_iff.mpr ⟨_, rfl, fun d hd => ?_, ?_⟩
      · exact decide_eq_true (ne_of_mem_of_not_mem hd h)
      · rintro d ⟨⟩
        rfl
    have hnewline : Lexer.scan (pos + byteLength ('#' :: body)) (['\n'] ++ rest) = _ :=
      scan_blanks (List.forall_mem_singleton.mpr rfl)
    rw [Separator.text, List.append_assoc, byteLength_append, ← Nat.add_assoc, ← hnewline]
    exact hlongest.scan

theorem scan_gapText (gap : List Separator) (pos : Nat) (rest : List Char) :
    scan pos (gapText gap ++ rest) = scan (pos + byteLength (gapText gap)) rest := by
  induction gap generalizing pos with
  | nil => rfl
  | cons s gap ih =>
    rw [gapText_cons, List.append_assoc, s.scan, ih, byteLength_append, Nat.add_assoc]

end Gap

section Render

variable {t : Terminal} {v : Value} {pos : Nat} {text rest : List Char}

theorem digit_of_isDigit {c : Char} (h : c.isDigit = true) : Digit c := by
  simpa [Char.isDigit, Digit, Char.le_def] using h

theorem digits_of_number (zeros n : Nat) :
    ∀ c ∈ List.replicate zeros '0' ++ Nat.toDigits 10 n, Digit c := by
  intro c hc
  rcases List.mem_append.mp hc with hzero | hdigit
  · rw [List.eq_of_mem_replicate hzero]
    decide
  · exact digit_of_isDigit (Nat.isDigit_of_mem_toDigits (by decide) (by decide) hdigit)

theorem ofDigitChars_number (zeros n : Nat) :
    Nat.ofDigitChars 10 (List.replicate zeros '0' ++ Nat.toDigits 10 n) 0 = n := by
  rw [Nat.ofDigitChars_append, Nat.ofDigitChars_replicate_zero, Nat.mul_zero,
    Nat.ofDigitChars_toDigits (by decide) (by decide)]

theorem Renders.matched (h : Renders (t, v) text) : Rule.Matches (.token t) text := by
  cases h with
  | int zeros hn =>
    exact .int (List.append_ne_nil_of_right_ne_nil _ Nat.toDigits_ne_nil) (digits_of_number zeros _)
  | ident hmatched => exact hmatched
  | mark ht => exact .mark ht

theorem Renders.lexeme (h : Renders (t, v) text) :
    Piece.lexeme ⟨some t, text, pos⟩ = .ok ⟨t, v, ⟨pos, pos + byteLength text⟩⟩ := by
  cases h with
  | @int zeros n hn =>
    rw [Piece.lexeme_int (List.append_ne_nil_of_right_ne_nil _ Nat.toDigits_ne_nil)
      (digits_of_number zeros n), ofDigitChars_number, if_pos hn]
    rfl
  | ident => rfl
  | mark ht =>
    simp only [punctuation, List.mem_cons, List.not_mem_nil, or_false] at ht
    rcases ht with rfl | rfl | rfl | rfl | rfl | rfl | rfl | rfl <;> rfl

theorem token_stops {c d : Char} {p : Char → Bool} (h : pattern? c = some (.token t, p))
    (hd : Separates d) : p d = false := by
  refine Bool.eq_false_iff.mpr fun hgoes => ?_
  unfold pattern? at h
  split at h
  next => cases h
  split at h
  next => cases h
  split at h
  next =>
    cases h
    exact (isDigit_iff.mp hgoes).not_separates hd
  split at h
  next =>
    cases h
    exact (continuesName_iff.mp hgoes).elim (·.not_separates hd) (·.not_separates hd)
  next =>
    obtain ⟨t', -, hrule⟩ := Option.map_eq_some_iff.mp h
    cases hrule
    cases hgoes

theorem Renders.longest (h : Renders (t, v) text) (hrest : Parted rest) :
    Longest (.token t) text rest := by
  have hmatched := h.matched
  cases text with
  | nil => exact absurd hmatched (not_matches_nil _)
  | cons c cs =>
    obtain ⟨p, hp, hcs⟩ := matches_cons_iff.mp hmatched
    exact longest_cons_iff.mpr ⟨p, hp, hcs, fun d hd => token_stops hp (hrest d hd)⟩

theorem Renders.scan (h : Renders (t, v) text) (hrest : Parted rest) :
    Lexer.scan pos (text ++ rest) = .ok ⟨t, v, ⟨pos, pos + byteLength text⟩⟩ ::
      Lexer.scan (pos + byteLength text) rest := by
  rw [(h.longest hrest).scan, ← h.lexeme]
  rfl

end Render

namespace Line

variable {w : Written} {rest : Line}

theorem text_cons : text (w :: rest) = w.text ++ gapText w.after ++ rest.text := List.flatMap_cons

theorem tail_apart (h : ∀ v ∈ (w :: rest).dropLast, v.after ≠ []) : ∀ v ∈ rest.dropLast, v.after ≠ [] := by
  cases rest with
  | nil => exact List.forall_mem_nil _
  | cons w' rest =>
    rw [List.dropLast_cons_cons] at h
    exact (List.forall_mem_cons.mp h).2

theorem parted (h : ∀ v ∈ (w :: rest).dropLast, v.after ≠ []) : Parted (gapText w.after ++ rest.text) := by
  cases rest with
  | nil =>
    cases hgap : w.after with
    | nil => rintro d ⟨⟩
    | cons s gap => exact parted_gapText (List.cons_ne_nil s gap) _
  | cons w' rest =>
    rw [List.dropLast_cons_cons] at h
    exact parted_gapText (List.forall_mem_cons.mp h).1 _

theorem scan_text (line : Line) (h : ∀ w ∈ line.dropLast, w.after ≠ []) (pos : Nat) :
    scan pos line.text =
      (line.place pos).map .ok ++ [ending (pos + byteLength line.text)] := by
  induction line generalizing pos with
  | nil =>
    rw [text, List.flatMap_nil, scan]
    rfl
  | cons w rest ih =>
    have hscan := ih (tail_apart h) (pos + byteLength (w.text ++ gapText w.after))
    rw [text_cons, List.append_assoc, w.renders.scan (parted h), scan_gapText, Nat.add_assoc,
      ← byteLength_append, hscan, Nat.add_assoc, ← byteLength_append, List.append_assoc]
    rfl

structure Stands (pos : Nat) (text : List Char) (w : Written) (t : Token) : Prop where
  token_eq : (t.terminal, t.value) = w.token
  cuts : ∃ rest, Cuts pos text t.span.start w.text rest
  stop_eq : t.span.stop = t.span.start + byteLength w.text

theorem Stands.later {pos : Nat} {run source : List Char} {w : Written} {t : Token}
    (h : Stands (pos + byteLength run) source w t) : Stands pos (run ++ source) w t where
  token_eq := h.token_eq
  cuts := by
    obtain ⟨rest, hcuts⟩ := h.cuts
    exact ⟨rest, hcuts.later⟩
  stop_eq := h.stop_eq

theorem place_stands (line : Line) (pos : Nat) :
    List.Forall₂ (fun w t => Stands pos line.text w t) line (line.place pos) := by
  induction line generalizing pos with
  | nil => exact .nil
  | cons w rest ih =>
    rw [text_cons]
    refine .cons ⟨rfl, ?_, rfl⟩ ((ih _).imp fun _ _ h => h.later)
    rw [List.append_assoc]
    exact ⟨_, .head⟩

end Line

namespace Layout

variable (layout : Layout)

theorem lexemes_source : lexemes layout.source =
    layout.tokens.map .ok ++ [ending layout.source.utf8ByteSize] := by
  have hsize : layout.source.utf8ByteSize = byteLength layout.text := (byteLength_ofList _).symm
  rw [hsize, lexemes, source, String.toList_ofList, text, scan_gapText,
    layout.line.scan_text layout.apart, Nat.zero_add, ← byteLength_append]
  rfl

theorem tokens_stand : List.Forall₂ (fun w t => Line.Stands 0 layout.source.toList w t)
    layout.line layout.tokens := by
  have hstand := layout.line.place_stands (0 + byteLength (gapText layout.lead))
  rw [Nat.zero_add] at hstand
  rw [source, String.toList_ofList]
  refine hstand.imp fun _ _ h => ?_
  rw [← Nat.zero_add (byteLength _)] at h
  exact h.later

theorem spells : Spells layout.source layout.word := by
  have hplace : ∀ (line : Line) (pos : Nat),
      (line.place pos).map (fun t => (t.terminal, t.value)) = line.map fun w => w.token := by
    intro line
    induction line with
    | nil => exact fun _ => rfl
    | cons w rest ih => exact fun pos => congrArg (w.token :: ·) (ih _)
  rw [Spells, items, layout.lexemes_source, List.map_append, List.map_map, word, ← hplace,
    List.map_map]
  rfl

end Layout

end Lexer

end ShiftReduce.Calculator
