namespace ShiftReduce

inductive Datum : Type
  | nil
  | int (n : Int)
  | list (items : List Datum)

instance : Inhabited Datum := ⟨.nil⟩

namespace Datum

mutual

def same : Datum → Datum → Bool
  | .nil, .nil => true
  | .int m, .int n => m == n
  | .list xs, .list ys => sameItems xs ys
  | _, _ => false

def sameItems : List Datum → List Datum → Bool
  | [], [] => true
  | x :: xs, y :: ys => x.same y && sameItems xs ys
  | _, _ => false

end

mutual

def text : Datum → String
  | .nil => "Nil"
  | .int n => s!"Int({n})"
  | .list items => "List([" ++ ", ".intercalate (textItems items) ++ "])"

def textItems : List Datum → List String
  | [] => []
  | item :: items => item.text :: textItems items

end

def ofNat (n : Nat) : Datum := .int n

def ofBool (b : Bool) : Datum := .int b.toNat

def weight : Datum → Int
  | .int n => n
  | _ => 0

end Datum

end ShiftReduce
