import ShiftReduce.Text.Hidden

namespace ShiftReduce.Text

def hex (n : Nat) : String := String.ofList (Nat.toDigits 16 n)

def quoteChar (c : Char) : String :=
  match c with
  | '"' => "\\\""
  | '\\' => "\\\\"
  | '\n' => "\\n"
  | '\r' => "\\r"
  | '\t' => "\\t"
  | '\x00' => "\\0"
  | c => if isHidden c then "\\u\x7b" ++ hex c.toNat ++ "\x7d" else c.toString

def quote (s : String) : String := "\"" ++ "".intercalate (s.toList.map quoteChar) ++ "\""

end ShiftReduce.Text
