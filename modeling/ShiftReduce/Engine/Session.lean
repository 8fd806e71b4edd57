import ShiftReduce.Config
import ShiftReduce.Provider

namespace ShiftReduce

structure Stats where
  tokens : Nat := 0
  shifts : Nat := 0
  reductions : Nat := 0
  errors : Nat := 0
  recoveries : Nat := 0
  discarded : Nat := 0
  deriving DecidableEq

structure Session (S V σ : Type) where
  stack : Stack (Frame S V)
  client : σ
  accepted : Bool
  failed : Bool
  result : Option V
  stats : Stats

def Session.closed {S V σ : Type} (s : Session S V σ) : Bool := s.accepted || s.failed

/-- A computation of an engine. What it did to the session before it stopped stays done. -/
abbrev Run (S V σ : Type) := EStateM (Halt Fault) (Session S V σ)

structure Engine (S T N P V σ : Type) where
  table : Table S T N P
  provider : Provider S T P V σ
  config : Config T
  /-- How many decisions one token may take on a stack of the given depth. -/
  reach : Nat → Nat
  /-- How many bytes a frame takes, which is for the compiler to say. -/
  frameSize : Nat := 40

end ShiftReduce
