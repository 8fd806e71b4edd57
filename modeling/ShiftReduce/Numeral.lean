namespace ShiftReduce

def InRange (n : Int) : Prop := -9223372036854775808 ≤ n ∧ n ≤ 9223372036854775807

instance : DecidablePred InRange := fun n => by unfold InRange; infer_instance

namespace Numeral

inductive Malformed : Type
  | empty
  | invalidDigit
  | tooLarge
  | tooSmall
  deriving DecidableEq

def Malformed.name : Malformed → String
  | .empty => "Empty"
  | .invalidDigit => "InvalidDigit"
  | .tooLarge => "PosOverflow"
  | .tooSmall => "NegOverflow"

def Malformed.message : Malformed → String
  | .empty => "cannot parse integer from empty string"
  | .invalidDigit => "invalid digit found in string"
  | .tooLarge => "number too large to fit in target type"
  | .tooSmall => "number too small to fit in target type"

def isDigit (c : Char) : Bool := '0' ≤ c && c ≤ '9'

def digit (c : Char) : Nat := c.toNat - '0'.toNat

/-- Reads digits after those that make `n`, each of which counts as `step` of its worth, and stops at
the first that is no digit or leads out of range. -/
def readDigits (step : Int) (beyond : Malformed) : Int → List Char → Except Malformed Int
  | n, [] => .ok n
  | n, c :: cs =>
    if isDigit c then
      let next := n * 10 + step * digit c
      if InRange next then readDigits step beyond next cs else .error beyond
    else .error .invalidDigit

def read : List Char → Except Malformed Int
  | [] => .error .empty
  | ['+'] | ['-'] => .error .invalidDigit
  | '+' :: cs => readDigits 1 .tooLarge 0 cs
  | '-' :: cs => readDigits (-1) .tooSmall 0 cs
  | cs => readDigits 1 .tooLarge 0 cs

end Numeral

end ShiftReduce
