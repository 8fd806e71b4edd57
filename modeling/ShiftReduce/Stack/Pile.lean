namespace ShiftReduce

structure Pile (α : Type) where
  items : List α
  size : Nat
  size_eq : size = items.length

namespace Pile

variable {α : Type}

@[ext] theorem ext {p q : Pile α} (h : p.items = q.items) : p = q := by
  obtain ⟨ps, m, hm⟩ := p
  obtain ⟨qs, n, hn⟩ := q
  subst hm hn
  cases h
  rfl

def empty : Pile α := ⟨[], 0, rfl⟩

def put (a : α) (p : Pile α) : Pile α := ⟨a :: p.items, p.size + 1, by simp [p.size_eq]⟩

def onto (p q : Pile α) : Pile α :=
  ⟨p.items ++ q.items, p.size + q.size, by simp [p.size_eq, q.size_eq]⟩

def take (n : Nat) (p : Pile α) : Pile α :=
  ⟨p.items.take n, min n p.size, by simp [p.size_eq]⟩

def drop (n : Nat) (p : Pile α) : Pile α :=
  ⟨p.items.drop n, p.size - n, by simp [p.size_eq]⟩

@[simp] theorem items_empty : (empty : Pile α).items = [] := rfl

@[simp] theorem items_put (a : α) (p : Pile α) : (p.put a).items = a :: p.items := rfl

@[simp] theorem items_onto (p q : Pile α) : (p.onto q).items = p.items ++ q.items := rfl

@[simp] theorem items_take (n : Nat) (p : Pile α) : (p.take n).items = p.items.take n := rfl

@[simp] theorem items_drop (n : Nat) (p : Pile α) : (p.drop n).items = p.items.drop n := rfl

end Pile

end ShiftReduce
