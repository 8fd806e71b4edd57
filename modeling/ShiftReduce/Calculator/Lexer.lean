import ShiftReduce.Calculator.Grammar
import ShiftReduce.Calculator.Value

namespace ShiftReduce.Calculator

structure Token where
  terminal : Terminal
  value : Value
  span : Span
  deriving DecidableEq

abbrev Lexeme := Except Error Token

namespace Lexer

def isBlank (c : Char) : Bool :=
  c = ' ' || c = '\t' || c = '\n' || c = '\r' || c = '\x0c'

def beginsName (c : Char) : Bool := c.isAlpha || c = '_'

def continuesName (c : Char) : Bool := beginsName c || Numeral.isDigit c

def punctuation? : Char → Option Terminal
  | '+' => some .plus
  | '-' => some .minus
  | '*' => some .asterisk
  | '/' => some .slash
  | '(' => some .leftParen
  | ')' => some .rightParen
  | ',' => some .comma
  | ';' => some .semicolon
  | _ => none

def byteLength (cs : List Char) : Nat := cs.foldr (fun c n => c.utf8Size + n) 0

def numeral (digits : List Char) (span : Span) : Lexeme :=
  match Numeral.read digits with
  | .ok n => .ok ⟨.int, .number n, span⟩
  | .error e => .error (.numeral e)

def symbol (c : Char) (span : Span) : Lexeme :=
  match punctuation? c with
  | some t => .ok ⟨t, .nothing, span⟩
  | none => .error (.character span c.toString)

def scan (pos : Nat) : List Char → List Lexeme
  | [] => [.ok ⟨.eof, .nothing, ⟨pos, pos⟩⟩]
  | c :: cs =>
    if isBlank c then scan (pos + c.utf8Size) cs
    else if c = '#' then
      let comment := cs.takeWhile (· ≠ '\n')
      scan (pos + c.utf8Size + byteLength comment) (cs.dropWhile (· ≠ '\n'))
    else if Numeral.isDigit c then
      let digits := cs.takeWhile Numeral.isDigit
      let stop := pos + c.utf8Size + byteLength digits
      numeral (c :: digits) ⟨pos, stop⟩ :: scan stop (cs.dropWhile Numeral.isDigit)
    else if beginsName c then
      let letters := cs.takeWhile continuesName
      let stop := pos + c.utf8Size + byteLength letters
      .ok ⟨.ident, .name (String.ofList (c :: letters)), ⟨pos, stop⟩⟩ ::
        scan stop (cs.dropWhile continuesName)
    else
      let stop := pos + c.utf8Size
      symbol c ⟨pos, stop⟩ :: scan stop cs
termination_by cs => cs.length
decreasing_by
  all_goals simp only [List.length_cons]
  · omega
  · exact Nat.lt_succ_of_le (List.dropWhile_suffix _).length_le
  · exact Nat.lt_succ_of_le (List.dropWhile_suffix _).length_le
  · exact Nat.lt_succ_of_le (List.dropWhile_suffix _).length_le
  · omega

end Lexer

def lexemes (source : String) : List Lexeme := Lexer.scan 0 source.toList

end ShiftReduce.Calculator
