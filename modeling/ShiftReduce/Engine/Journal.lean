import ShiftReduce.Provider

namespace ShiftReduce

inductive Entry (S T P V : Type) : Type
  | told (notice : Notice S T P V)
  | reduced (production : P) (answer : Except Fault V)

variable {S T P V : Type}

def Provider.journal (value : P → Args S V → Except (Halt Fault) V) :
    Provider S T P V (List (Entry S T P V)) where
  reduce production args entries :=
    match value production args with
    | .ok v => .ok v (.reduced production (.ok v) :: entries)
    | .error (.raised f) => .error (.raised f) (.reduced production (.error f) :: entries)
    | .error halt => .error halt entries
  notify notice entries := .told notice :: entries

end ShiftReduce
