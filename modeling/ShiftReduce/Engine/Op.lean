import ShiftReduce.Engine.Basic

namespace ShiftReduce.Engine

inductive Op (T V : Type) : Type
  | post (token : T) (value : V)
  | postAll (tokens : List (T × V))
  | parse (tokens : List (T × V))
  | reset
  | accepted
  | take

inductive Answer (V : Type) : Type
  | done
  | closed (b : Bool)
  | value (v : Option V)

variable {S T N P V σ : Type} [Inhabited V] [DecidableEq T]

def perform (e : Engine S T N P V σ) : Op T V → Run S V σ (Answer V)
  | .post token value => .closed <$> e.post token value
  | .postAll tokens => .closed <$> e.postAll tokens
  | .parse tokens => .value <$> e.parse tokens
  | .reset => do
    e.reset
    pure .done
  | .accepted => return .value (accepted? (← get))
  | .take => .value <$> take

end ShiftReduce.Engine
