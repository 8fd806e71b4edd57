import Mathlib.Data.List.TakeWhile
import ShiftReduce.Proofs.Calculator.Source

/-!
The patterns of a source: what is passed over, and what is a token. A pattern is known by the
character that its match begins with, and goes on as long as the characters that follow allow.
-/

namespace ShiftReduce.Calculator

namespace Lexer

def Blank (c : Char) : Prop := c ∈ [' ', '\t', '\r', '\n', '\x0c']

def Digit (c : Char) : Prop := '0' ≤ c ∧ c ≤ '9'

def Letter (c : Char) : Prop := ('A' ≤ c ∧ c ≤ 'Z') ∨ ('a' ≤ c ∧ c ≤ 'z') ∨ c = '_'

instance : DecidablePred Blank := fun _ => inferInstanceAs (Decidable (_ ∈ _))

instance : DecidablePred Digit := fun _ => inferInstanceAs (Decidable (_ ∧ _))

instance : DecidablePred Letter := fun _ => inferInstanceAs (Decidable (_ ∨ _))

def punctuation : List Terminal :=
  [.plus, .minus, .asterisk, .slash, .leftParen, .rightParen, .comma, .semicolon]

inductive Rule : Type
  | skip
  | token (t : Terminal)
  deriving DecidableEq

inductive Rule.Matches : Rule → List Char → Prop
  | blanks {text} : text ≠ [] → (∀ c ∈ text, Blank c) → Matches .skip text
  | comment {body} : '\n' ∉ body → Matches .skip ('#' :: body)
  | int {text} : text ≠ [] → (∀ c ∈ text, Digit c) → Matches (.token .int) text
  | ident {c text} : Letter c → (∀ d ∈ text, Letter d ∨ Digit d) →
      Matches (.token .ident) (c :: text)
  | mark {t} : t ∈ punctuation → Matches (.token t) t.label.toList

structure Longest (rule : Rule) (text rest : List Char) : Prop where
  matched : rule.Matches text
  length_le : ∀ (other : Rule) (more rest' : List Char), more ++ rest' = text ++ rest →
    other.Matches more → more.length ≤ text.length

def Strays (c : Char) (rest : List Char) : Prop :=
  ∀ (rule : Rule) (text rest' : List Char), text ++ rest' = c :: rest → ¬ rule.Matches text

section Classes

variable {c : Char}

theorem isBlank_iff : isBlank c = true ↔ Blank c := by
  simp [isBlank, Blank, or_assoc, or_comm, or_left_comm]

theorem isDigit_iff : Numeral.isDigit c = true ↔ Digit c := by
  simp [Numeral.isDigit, Digit]

theorem beginsName_iff : beginsName c = true ↔ Letter c := by
  have hupper : c.isUpper = decide ('A' ≤ c ∧ c ≤ 'Z') := rfl
  have hlower : c.isLower = (decide ('a' ≤ c) && decide (c ≤ 'z')) := rfl
  have halpha : c.isAlpha = (c.isUpper || c.isLower) := rfl
  simp [beginsName, halpha, hupper, hlower, Letter, or_assoc]

theorem continuesName_iff : continuesName c = true ↔ Letter c ∨ Digit c := by
  rw [continuesName, Bool.or_eq_true, beginsName_iff, isDigit_iff]

theorem exists_label {t : Terminal} (h : t ∈ punctuation) : ∃ c, t.label.toList = [c] := by
  have hlength : ∀ t ∈ punctuation, t.label.toList.length = 1 := by decide
  exact List.length_eq_one_iff.mp (hlength t h)

theorem punctuation?_eq_some {t : Terminal} :
    punctuation? c = some t ↔ t ∈ punctuation ∧ t.label.toList = [c] := by
  constructor
  · intro h
    unfold punctuation? at h
    split at h <;> cases h <;> decide
  · rintro ⟨hmem, hlabel⟩
    simp only [punctuation, List.mem_cons, List.not_mem_nil, or_false] at hmem
    rcases hmem with rfl | rfl | rfl | rfl | rfl | rfl | rfl | rfl <;> cases hlabel <;> rfl

end Classes

def pattern? (c : Char) : Option (Rule × (Char → Bool)) :=
  if isBlank c then some (.skip, isBlank)
  else if c = '#' then some (.skip, (· ≠ '\n'))
  else if Numeral.isDigit c then some (.token .int, Numeral.isDigit)
  else if beginsName c then some (.token .ident, continuesName)
  else (punctuation? c).map fun t => (.token t, fun _ => false)

def Separates (c : Char) : Prop := Blank c ∨ c = '#'

section Pattern

variable {c : Char}

theorem pattern?_of_blank (h : Blank c) : pattern? c = some (.skip, isBlank) :=
  if_pos (isBlank_iff.mpr h)

theorem Digit.not_separates (h : Digit c) : ¬ Separates c := by
  simp only [Separates, Blank, List.mem_cons, List.not_mem_nil, or_false]
  rintro ((rfl | rfl | rfl | rfl | rfl) | rfl) <;> exact absurd h (by decide)

theorem Letter.not_separates (h : Letter c) : ¬ Separates c := by
  simp only [Separates, Blank, List.mem_cons, List.not_mem_nil, or_false]
  rintro ((rfl | rfl | rfl | rfl | rfl) | rfl) <;> exact absurd h (by decide)

theorem Letter.not_digit (h : Letter c) : ¬ Digit c := by
  rintro ⟨-, hnine⟩
  rcases h with ⟨hge, -⟩ | ⟨hge, -⟩ | rfl
  · exact absurd (Char.le_trans hge hnine) (by decide)
  · exact absurd (Char.le_trans hge hnine) (by decide)
  · exact absurd hnine (by decide)

theorem pattern?_of_digit (h : Digit c) : pattern? c = some (.token .int, Numeral.isDigit) := by
  obtain ⟨hblank, hcomment⟩ := not_or.mp h.not_separates
  rw [pattern?, if_neg (mt isBlank_iff.mp hblank), if_neg hcomment, if_pos (isDigit_iff.mpr h)]

theorem pattern?_of_letter (h : Letter c) : pattern? c = some (.token .ident, continuesName) := by
  obtain ⟨hblank, hcomment⟩ := not_or.mp h.not_separates
  rw [pattern?, if_neg (mt isBlank_iff.mp hblank), if_neg hcomment,
    if_neg (mt isDigit_iff.mp h.not_digit), if_pos (beginsName_iff.mpr h)]

theorem pattern?_of_punctuation {t : Terminal} (h : punctuation? c = some t) :
    pattern? c = some (.token t, fun _ => false) := by
  unfold punctuation? at h
  split at h <;> cases h <;> rfl

end Pattern

theorem not_matches_nil (rule : Rule) : ¬ rule.Matches [] := by
  generalize htext : [] = text
  intro h
  cases h with
  | blanks hne | int hne => exact hne htext.symm
  | comment | ident => cases htext
  | mark ht =>
    obtain ⟨c, hlabel⟩ := exists_label ht
    cases htext.trans hlabel

theorem matches_cons_iff {rule : Rule} {c : Char} {text : List Char} :
    rule.Matches (c :: text) ↔ ∃ p, pattern? c = some (rule, p) ∧ ∀ d ∈ text, p d = true := by
  constructor
  · generalize htext : c :: text = whole
    intro h
    cases h with
    | blanks _ hblank =>
      obtain ⟨hc, hrest⟩ := List.forall_mem_cons.mp (htext ▸ hblank)
      exact ⟨_, pattern?_of_blank hc, fun d hd => isBlank_iff.mpr (hrest d hd)⟩
    | comment hbody =>
      cases htext
      exact ⟨_, rfl, fun d hd => decide_eq_true (ne_of_mem_of_not_mem hd hbody)⟩
    | int _ hdigit =>
      obtain ⟨hc, hrest⟩ := List.forall_mem_cons.mp (htext ▸ hdigit)
      exact ⟨_, pattern?_of_digit hc, fun d hd => isDigit_iff.mpr (hrest d hd)⟩
    | ident hc hrest =>
      cases htext
      exact ⟨_, pattern?_of_letter hc, fun d hd => continuesName_iff.mpr (hrest d hd)⟩
    | mark ht =>
      obtain ⟨d, hlabel⟩ := exists_label ht
      cases htext.trans hlabel
      exact ⟨_, pattern?_of_punctuation (punctuation?_eq_some.mpr ⟨ht, hlabel⟩),
        List.forall_mem_nil _⟩
  · rintro ⟨p, hp, hrest⟩
    unfold pattern? at hp
    split at hp
    next hblank =>
      cases hp
      exact .blanks (List.cons_ne_nil _ _) (List.forall_mem_cons.mpr
        ⟨isBlank_iff.mp hblank, fun d hd => isBlank_iff.mp (hrest d hd)⟩)
    split at hp
    next hcomment =>
      cases hp
      subst hcomment
      exact .comment fun hmem => of_decide_eq_true (hrest _ hmem) rfl
    split at hp
    next hdigit =>
      cases hp
      exact .int (List.cons_ne_nil _ _) (List.forall_mem_cons.mpr
        ⟨isDigit_iff.mp hdigit, fun d hd => isDigit_iff.mp (hrest d hd)⟩)
    split at hp
    next hletter =>
      cases hp
      exact .ident (beginsName_iff.mp hletter) fun d hd => continuesName_iff.mp (hrest d hd)
    next =>
      obtain ⟨t, ht, hrule⟩ := Option.map_eq_some_iff.mp hp
      cases hrule
      obtain ⟨hmem, hlabel⟩ := punctuation?_eq_some.mp ht
      have htext : text = [] := List.eq_nil_iff_forall_not_mem.mpr fun d hd => by
        cases hrest d hd
      rw [htext, ← hlabel]
      exact .mark hmem

section Run

variable {p : Char → Bool} {run rest : List Char}

theorem takeWhile_run (hrun : ∀ d ∈ run, p d = true) (hrest : ∀ d ∈ rest.head?, p d = false) :
    (run ++ rest).takeWhile p = run := by
  cases rest with
  | nil => rwa [List.append_nil, List.takeWhile_eq_self_iff]
  | cons d rest => rwa [takeWhile_until _ _ (hrest d rfl), List.takeWhile_eq_self_iff]

theorem dropWhile_run (hrun : ∀ d ∈ run, p d = true) (hrest : ∀ d ∈ rest.head?, p d = false) :
    (run ++ rest).dropWhile p = rest := by
  have hsplit := List.takeWhile_append_dropWhile (p := p) (l := run ++ rest)
  rw [takeWhile_run hrun hrest] at hsplit
  exact List.append_cancel_left hsplit

end Run

theorem Longest.stops {rule : Rule} {d : Char} {text rest : List Char}
    (h : Longest rule text (d :: rest)) (other : Rule) : ¬ other.Matches (text ++ [d]) := by
  intro hmatched
  have hle := h.length_le other (text ++ [d]) rest (by simp) hmatched
  simp only [List.length_append, List.length_singleton] at hle
  omega

theorem longest_cons_iff {rule : Rule} {c : Char} {text rest : List Char} :
    Longest rule (c :: text) rest ↔ ∃ p, pattern? c = some (rule, p) ∧ (∀ d ∈ text, p d = true) ∧
      ∀ d ∈ rest.head?, p d = false := by
  constructor
  · intro h
    obtain ⟨p, hp, htext⟩ := matches_cons_iff.mp h.matched
    refine ⟨p, hp, htext, fun d hd => Bool.eq_false_iff.mpr fun hgoes => ?_⟩
    obtain ⟨rest', rfl⟩ := List.head?_eq_some_iff.mp hd
    have hmore : ∀ d' ∈ text ++ [d], p d' = true :=
      List.forall_mem_append.mpr ⟨htext, List.forall_mem_singleton.mpr hgoes⟩
    exact h.stops rule (matches_cons_iff.mpr ⟨p, hp, hmore⟩)
  · rintro ⟨p, hp, htext, hrest⟩
    refine ⟨matches_cons_iff.mpr ⟨p, hp, htext⟩, fun other more rest' happend hmore => ?_⟩
    cases more with
    | nil => exact absurd hmore (not_matches_nil other)
    | cons d more =>
      rw [List.cons_append, List.cons_append] at happend
      obtain ⟨rfl, hmore'⟩ := List.cons_eq_cons.mp happend
      obtain ⟨q, hq, hall⟩ := matches_cons_iff.mp hmore
      obtain ⟨rfl, rfl⟩ := Prod.mk.inj (Option.some.inj (hp.symm.trans hq))
      have hrun : (more ++ rest').takeWhile p = text := hmore' ▸ takeWhile_run htext hrest
      rw [List.takeWhile_append_of_pos hall] at hrun
      rw [List.length_cons, List.length_cons, ← hrun, List.length_append]
      omega

theorem Longest.exists_cons {rule : Rule} {text rest : List Char} (h : Longest rule text rest) :
    ∃ c cs, text = c :: cs := by
  cases text with
  | nil => exact absurd h.matched (not_matches_nil rule)
  | cons c cs => exact ⟨c, cs, rfl⟩

theorem Longest.unique {rule rule' : Rule} {text rest text' rest' : List Char}
    (h : Longest rule text rest) (h' : Longest rule' text' rest')
    (happend : text ++ rest = text' ++ rest') : rule = rule' ∧ text = text' ∧ rest = rest' := by
  obtain ⟨c, cs, rfl⟩ := h.exists_cons
  obtain ⟨c', cs', rfl⟩ := h'.exists_cons
  have hlength := Nat.le_antisymm (h'.length_le _ _ _ happend h.matched)
    (h.length_le _ _ _ happend.symm h'.matched)
  obtain ⟨htext, hrest⟩ := List.append_inj happend hlength
  cases htext
  obtain ⟨p, hp, -⟩ := longest_cons_iff.mp h
  obtain ⟨q, hq, -⟩ := longest_cons_iff.mp h'
  exact ⟨congrArg Prod.fst (Option.some.inj (hp.symm.trans hq)), rfl, hrest⟩

theorem longest_head {rule : Rule} {c : Char} {p : Char → Bool} (h : pattern? c = some (rule, p))
    (cs : List Char) : Longest rule (c :: cs.takeWhile p) (cs.dropWhile p) := by
  refine longest_cons_iff.mpr ⟨p, h, fun d hd => List.mem_takeWhile_imp hd, fun d hd => ?_⟩
  have hhead := List.head?_dropWhile_not p cs
  rwa [hd] at hhead

theorem strays_iff {c : Char} {rest : List Char} : Strays c rest ↔ pattern? c = none := by
  constructor
  · intro hstrays
    rw [Option.eq_none_iff_forall_ne_some]
    rintro ⟨rule, p⟩ hp
    exact hstrays rule [c] rest rfl (matches_cons_iff.mpr ⟨p, hp, List.forall_mem_nil _⟩)
  · intro hnone rule text rest' happend hmatched
    cases text with
    | nil => exact not_matches_nil rule hmatched
    | cons d text =>
      cases happend
      obtain ⟨p, hp, -⟩ := matches_cons_iff.mp hmatched
      cases hnone.symm.trans hp

end Lexer

end ShiftReduce.Calculator
