import ShiftReduce.Proofs.Calculator.Elsewhere
import ShiftReduce.Proofs.Calculator.Lossless
import ShiftReduce.Proofs.Calculator.Partition
import ShiftReduce.Proofs.Calculator.Remarks

namespace ShiftReduce.Calculator

variable {σ : Type} {actions : Actions σ} {config : Config Terminal} {s t u : Session σ}

section Order

def Precedes (l m : Lexeme) : Prop :=
  ∀ a b : Token, l = .ok a → m = .ok b →
    a.span ≠ b.span ∧ a.span.start ≤ b.span.start ∧ a.span.stop ≤ b.span.stop

namespace Lexer

variable {pos : Nat} {source : List Char} {pieces : List Piece} {p q : Piece}

theorem Piece.Faithful.span_eq {l : Token} (h : p.Faithful) (hl : p.lexeme = .ok l) :
    l.span = ⟨p.start, p.stop⟩ := (h.inner l hl).2

end Lexer

end Order

section Places

inductive Dealt : List Lexeme → List Diagnostic → Prop
  | unread (ls : List Lexeme) : Dealt ls []
  | token {l : Token} {messages : List String} {rest : List Lexeme} {ds : List Diagnostic} :
      messages.length ≤ 2 → Dealt rest ds →
      Dealt (.ok l :: rest) (messages.map (Diagnostic.mk l.span) ++ ds)

namespace Dealt

variable {ls : List Lexeme} {ds : List Diagnostic}

theorem exists_token (h : Dealt ls ds) : ∀ d ∈ ds, ∃ l : Token, .ok l ∈ ls ∧ d.span = l.span := by
  induction h with
  | unread => exact List.forall_mem_nil _
  | @token l messages rest ds _ _ ih =>
    refine List.forall_mem_append.mpr ⟨?_, fun d hd => ?_⟩
    · exact List.forall_mem_map.mpr fun message _ => ⟨l, List.mem_cons_self, rfl⟩
    · obtain ⟨m, hm, hspan⟩ := ih d hd
      exact ⟨m, List.mem_cons_of_mem _ hm, hspan⟩

theorem ordered (h : Dealt ls ds) (hls : ls.Pairwise Precedes) :
    ds.Pairwise fun d d' => d.span.start ≤ d'.span.start ∧ d.span.stop ≤ d'.span.stop := by
  induction h with
  | unread => exact .nil
  | @token l messages rest ds _ hds ih =>
    obtain ⟨hl, hrest⟩ := List.pairwise_cons.mp hls
    refine List.pairwise_append.mpr ⟨?_, ih hrest, ?_⟩
    · rw [List.pairwise_map]
      exact List.pairwise_of_forall fun _ _ => ⟨Nat.le_refl _, Nat.le_refl _⟩
    · intro d hd d' hd'
      obtain ⟨message, -, rfl⟩ := List.mem_map.mp hd
      obtain ⟨m, hm, hspan⟩ := hds.exists_token d' hd'
      rw [hspan]
      exact (hl _ hm l m rfl rfl).2

end Dealt

end Places

section Calculations

variable {ls : List Lexeme} {ds : List Diagnostic}

namespace Remarks

variable {l : Token} {messages : List String} {rest : List Lexeme}

end Remarks

section Attributed

variable {l : Token}

end Attributed

end Calculations

section Rejected

end Rejected

end ShiftReduce.Calculator
