import ShiftReduce.Table

namespace ShiftReduce

structure Config (T : Type) where
  ebnf : Bool
  /-- The token that is driven through a resuming state after a syntax error; without it there is no
  recovery. -/
  recovery : Option T
  /-- The end of input, which recovery never discards. -/
  endToken : T
  capacity : Option Nat

namespace Config

variable {S T N P : Type}

def plain (endToken : T) : Config T := ⟨false, none, endToken, none⟩

def ofTable (table : Table S T N P) : Config T :=
  { plain table.endToken with recovery := table.errorToken }

def recoveryEnabled (config : Config T) : Bool := config.recovery.isSome

end Config

end ShiftReduce
