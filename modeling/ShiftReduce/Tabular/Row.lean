import ShiftReduce.Table

namespace ShiftReduce.Row

def words (row : String) : List String := (row.splitOn " ").filter (· ≠ "")

/-- A dot is an error, `a` accepts, `s3` shifts to state 3 and `r2` reduces by production 2. -/
def decision? (word : String) : Option (Action Nat Nat) :=
  match word.toList with
  | ['.'] => some .error
  | ['a'] => some .accept
  | 's' :: cs => (String.ofList cs).toNat?.map .shift
  | 'r' :: cs => (String.ofList cs).toNat?.map .reduce
  | _ => none

def goto? (word : String) : Option (Option Nat) :=
  if word = "." then some none else word.toNat?.map some

def decisions? (row : String) : Option (List (Action Nat Nat)) := (words row).mapM decision?

def gotos? (row : String) : Option (List (Option Nat)) := (words row).mapM goto?

end ShiftReduce.Row
