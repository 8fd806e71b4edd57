import ShiftReduce.Proofs.Calculator.Calculation
import ShiftReduce.Proofs.Calculator.Pieces

namespace ShiftReduce.Calculator

def eof : Item := .ok (.eof, .nothing)

/-- The source has no malformed lexeme, and its tokens are the word. -/
def Spells (source : String) (w : Word) : Prop := items source = w.map .ok ++ [eof]

def Inner (i : Item) : Prop := ∀ tv, i = .ok tv → Lexed tv

theorem Inner.error (e : Error) : Inner (.error e) := by
  intro tv htv
  cases htv

theorem Inner.token {t : Terminal} {v : Value} (hshaped : Shaped t v) (heof : t ≠ .eof)
    (herror : t ≠ .error) : Inner (.ok (t, v)) := by
  intro tv htv
  cases htv
  exact ⟨hshaped, heof, herror⟩

section Places

variable (n : Nat)

def Span.shift (s : Span) : Span := ⟨s.start + n, s.stop + n⟩

def Diagnostic.shift (d : Diagnostic) : Diagnostic := { d with span := d.span.shift n }

def Error.shift : Error → Error
  | .character span text => .character (span.shift n) text
  | e => e

def Lexeme.shift : Lexeme → Lexeme
  | .ok t => .ok { t with span := t.span.shift n }
  | .error e => .error (e.shift n)

theorem item_shift (l : Lexeme) : item (l.shift n) = item l := by
  cases l with
  | ok t => rfl
  | error e => cases e <;> rfl

theorem map_item_shift (ls : List Lexeme) : (ls.map (Lexeme.shift n)).map item = ls.map item := by
  rw [List.map_map]
  exact List.map_congr_left fun l _ => item_shift n l

end Places

namespace Lexer

section Until

variable {α : Type} {p : α → Bool} {b : α} (as bs : List α)

theorem takeWhile_until (h : p b = false) : (as ++ b :: bs).takeWhile p = as.takeWhile p := by
  induction as with
  | nil => simp [h]
  | cons a as ih => simp [List.takeWhile_cons, ih]

theorem dropWhile_until (h : p b = false) :
    (as ++ b :: bs).dropWhile p = as.dropWhile p ++ b :: bs := by
  induction as with
  | nil => simp [h]
  | cons a as ih =>
    simp only [List.cons_append, List.dropWhile_cons, ih]
    split <;> rfl

end Until

theorem byteLength_cons (c : Char) (cs : List Char) :
    byteLength (c :: cs) = c.utf8Size + byteLength cs := rfl

theorem byteLength_append (cs cs' : List Char) :
    byteLength (cs ++ cs') = byteLength cs + byteLength cs' := by
  induction cs with
  | nil => exact (Nat.zero_add _).symm
  | cons c cs ih => rw [List.cons_append, byteLength_cons, byteLength_cons, ih, Nat.add_assoc]

theorem byteLength_split (p : Char → Bool) (cs : List Char) :
    byteLength (cs.takeWhile p) + byteLength (cs.dropWhile p) = byteLength cs := by
  rw [← byteLength_append, List.takeWhile_append_dropWhile]

theorem byteLength_ofList (cs : List Char) : byteLength cs = (String.ofList cs).utf8ByteSize := by
  induction cs with
  | nil => rfl
  | cons c cs ih =>
    rw [byteLength_cons, ih, String.ofList_cons, String.utf8ByteSize_append,
      String.utf8ByteSize_singleton]

theorem numeral_shift (n : Nat) (digits : List Char) (span : Span) :
    (numeral digits span).shift n = numeral digits (span.shift n) := by
  rw [numeral, numeral]
  cases Numeral.read digits <;> rfl

theorem symbol_shift (n : Nat) (c : Char) (span : Span) :
    (symbol c span).shift n = symbol c (span.shift n) := by
  rw [symbol, symbol]
  cases punctuation? c <;> rfl

theorem scan_shift (n pos : Nat) (cs : List Char) :
    scan (pos + n) cs = (scan pos cs).map (Lexeme.shift n) := by
  induction pos, cs using scan.induct with
  | case1 pos =>
    rw [scan, scan]
    rfl
  | case2 pos c cs hblank ih =>
    rw [scan, scan, if_pos hblank, if_pos hblank, Nat.add_right_comm]
    exact ih
  | case3 pos cs comment hblank ih =>
    rw [scan, scan]
    simp only [if_neg hblank, if_true]
    rw [Nat.add_right_comm pos, Nat.add_right_comm _ n]
    exact ih
  | case4 pos c cs hblank hcomment hdigit digits stop ih =>
    rw [scan, scan]
    simp only [if_neg hblank, if_neg hcomment, if_pos hdigit, List.map_cons]
    rw [numeral_shift, Nat.add_right_comm pos, Nat.add_right_comm _ n]
    exact congrArg _ ih
  | case5 pos c cs hblank hcomment hdigit hname letters stop ih =>
    rw [scan, scan]
    simp only [if_neg hblank, if_neg hcomment, if_neg hdigit, if_pos hname, List.map_cons]
    rw [Nat.add_right_comm pos, Nat.add_right_comm _ n]
    exact congrArg _ ih
  | case6 pos c cs hblank hcomment hdigit hname stop ih =>
    rw [scan, scan]
    simp only [if_neg hblank, if_neg hcomment, if_neg hdigit, if_neg hname, List.map_cons]
    rw [symbol_shift, Nat.add_right_comm]
    exact congrArg _ ih

theorem numeral_inner (digits : List Char) (span : Span) : Inner (item (numeral digits span)) := by
  rw [numeral]
  cases Numeral.read digits with
  | error e => exact .error _
  | ok n =>
    refine .token (.int n) ?_ ?_
    · show Terminal.int ≠ .eof
      decide
    · show Terminal.int ≠ .error
      decide

theorem ident_inner (name : String) (span : Span) :
    Inner (item (.ok ⟨.ident, .name name, span⟩)) := by
  refine .token (.ident name) ?_ ?_
  · show Terminal.ident ≠ .eof
    decide
  · show Terminal.ident ≠ .error
    decide

theorem punctuation?_inner {c : Char} {t : Terminal} (h : punctuation? c = some t) :
    t ≠ .eof ∧ t ≠ .error := by
  unfold punctuation? at h
  split at h <;> cases h <;> decide

theorem symbol_inner (c : Char) (span : Span) : Inner (item (symbol c span)) := by
  rw [symbol]
  cases ht : punctuation? c with
  | none => exact .error _
  | some t =>
    obtain ⟨hint, hident⟩ := punctuation?_mark ht
    obtain ⟨heof, herror⟩ := punctuation?_inner ht
    exact .token (.mark hint hident) heof herror

def Lined (stop : Nat) (line : List Lexeme) (above : List Char → List Lexeme) : Prop :=
  ∃ body, (∀ l ∈ body, Inner (item l)) ∧ line = body ++ [.ok ⟨.eof, .nothing, ⟨stop, stop⟩⟩] ∧
    ∀ rest, above rest = body ++ scan (stop + 1) rest

theorem Lined.cons {stop : Nat} {l : Lexeme} {line : List Lexeme}
    {above : List Char → List Lexeme} (hl : Inner (item l)) (h : Lined stop line above) :
    Lined stop (l :: line) fun rest => l :: above rest := by
  obtain ⟨body, hbody, rfl, habove⟩ := h
  refine ⟨l :: body, List.forall_mem_cons.mpr ⟨hl, hbody⟩, rfl, fun rest => ?_⟩
  exact congrArg (l :: ·) (habove rest)

theorem scan_lined (pos : Nat) (cs : List Char) :
    Lined (pos + byteLength cs) (scan pos cs) fun rest => scan pos (cs ++ '\n' :: rest) := by
  induction pos, cs using scan.induct with
  | case1 pos =>
    refine ⟨[], List.forall_mem_nil _, ?_, fun rest => ?_⟩
    · rw [scan]
      rfl
    · show scan pos ('\n' :: rest) = _
      rw [scan, if_pos (by rfl)]
      rfl
  | case2 pos c cs hblank ih =>
    simp only [List.cons_append, scan, if_pos hblank, byteLength_cons, ← Nat.add_assoc]
    exact ih
  | case3 pos cs comment hblank ih =>
    have hsplit := byteLength_split (fun c => decide (c ≠ '\n')) cs
    simp only [List.cons_append, scan, if_neg hblank, if_true,
      takeWhile_until (p := fun c => decide (c ≠ '\n')) (b := '\n') _ _ rfl,
      dropWhile_until (p := fun c => decide (c ≠ '\n')) (b := '\n') _ _ rfl,
      byteLength_cons, ← hsplit, ← Nat.add_assoc]
    exact ih
  | case4 pos c cs hblank hcomment hdigit digits stop ih =>
    have hsplit := byteLength_split Numeral.isDigit cs
    simp only [List.cons_append, scan, if_neg hblank, if_neg hcomment, if_pos hdigit,
      takeWhile_until (p := Numeral.isDigit) (b := '\n') _ _ rfl,
      dropWhile_until (p := Numeral.isDigit) (b := '\n') _ _ rfl,
      byteLength_cons, ← hsplit, ← Nat.add_assoc]
    exact ih.cons (numeral_inner _ _)
  | case5 pos c cs hblank hcomment hdigit hname letters stop ih =>
    have hsplit := byteLength_split continuesName cs
    simp only [List.cons_append, scan, if_neg hblank, if_neg hcomment, if_neg hdigit, if_pos hname,
      takeWhile_until (p := continuesName) (b := '\n') _ _ rfl,
      dropWhile_until (p := continuesName) (b := '\n') _ _ rfl,
      byteLength_cons, ← hsplit, ← Nat.add_assoc]
    exact ih.cons (ident_inner _ _)
  | case6 pos c cs hblank hcomment hdigit hname stop ih =>
    simp only [List.cons_append, scan, if_neg hblank, if_neg hcomment, if_neg hdigit, if_neg hname,
      byteLength_cons, ← Nat.add_assoc]
    exact ih.cons (symbol_inner _ _)

end Lexer

theorem lexemes_line (p s : String) : ∃ body : List Lexeme, (∀ l ∈ body, Inner (item l)) ∧
    (∃ span, lexemes p = body ++ [.ok ⟨.eof, .nothing, span⟩]) ∧
    lexemes (p ++ "\n" ++ s) = body ++ (lexemes s).map (Lexeme.shift (p.utf8ByteSize + 1)) := by
  obtain ⟨body, hbody, hline, habove⟩ := Lexer.scan_lined 0 p.toList
  refine ⟨body, hbody, ⟨_, hline⟩, ?_⟩
  have hbelow : 0 + Lexer.byteLength p.toList + 1 = 0 + (p.utf8ByteSize + 1) := by
    rw [Lexer.byteLength_ofList, String.ofList_toList]
    omega
  rw [hbelow] at habove
  rw [lexemes, String.toList_append, String.toList_append, List.append_assoc]
  exact (habove s.toList).trans (congrArg _ (Lexer.scan_shift _ 0 s.toList))

theorem items_line (p s : String) : ∃ body : List Item, (∀ i ∈ body, Inner i) ∧
    items p = body ++ [eof] ∧ items (p ++ "\n" ++ s) = body ++ items s := by
  obtain ⟨body, hbody, ⟨span, hline⟩, habove⟩ := lexemes_line p s
  refine ⟨body.map item, List.forall_mem_map.mpr hbody, ?_, ?_⟩
  · rw [items, hline, List.map_append]
    rfl
  · rw [items, habove, List.map_append, map_item_shift]
    rfl

theorem items_semicolon (s : String) : items ("; " ++ s) = .ok semicolon :: items s := by
  have htext : ("; " ++ s).toList = ';' :: ' ' :: s.toList := by
    rw [String.toList_append]
    rfl
  have hblank : Lexer.scan 1 (' ' :: s.toList) = Lexer.scan 2 s.toList := by
    rw [Lexer.scan, if_pos (by decide)]
    rfl
  have hsymbol : Lexer.scan 0 (';' :: ' ' :: s.toList) =
      .ok ⟨.semicolon, .nothing, ⟨0, 1⟩⟩ :: Lexer.scan 1 (' ' :: s.toList) := by
    rw [Lexer.scan, if_neg (by decide), if_neg (by decide), if_neg (by decide),
      if_neg (by decide)]
    rfl
  rw [items, lexemes, htext, hsymbol, hblank, List.map_cons, Lexer.scan_shift 2 0, map_item_shift]
  rfl

end ShiftReduce.Calculator
