import ShiftReduce.Provider

namespace ShiftReduce

structure Names (S T P V : Type) where
  state : S → String
  token : T → String
  production : P → String
  value : V → String

def SyntaxError.message {S T : Type} (state : S → String) (token : T → String)
    (e : SyntaxError S T) : String :=
  let expected := ", ".intercalate (e.expected.map token)
  s!"unexpected {token e.token} in state {state e.state}, expected one of [{expected}]"

namespace Names

variable {S T P V : Type} (names : Names S T P V)

def frame (f : Frame S V) : String :=
  let folded := if 0 < f.folded then s!"[{f.folded}]" else ""
  s!"<{names.state f.state}> {names.value f.value}{folded}  "

def stack (s : Stack (Frame S V)) : String :=
  let kept := s.kept.items.reverse.map names.frame
  let pending := s.pending.items.reverse.map names.frame
  let bar := if pending.isEmpty then "" else "| "
  "".intercalate kept ++ bar ++ "".intercalate pending

def line : Notice S T P V → String
  | .deciding s token => s!"TRACE {names.stack s}<-  {names.token token}"
  | .shifting next => s!"TRACE Shift {names.state next}"
  | .reducing production label => s!"TRACE Reduce {names.production production}({label})"
  | .entering next => s!"TRACE Goto {names.state next}"
  | .accepting => "TRACE Accept"
  | .syntaxError e => s!"TRACE Error on {names.token e.token} in {names.state e.state}"
  | .stackOverflow e => s!"DEBUG {e.message}"
  | .lifting count => s!"TRACE lifting {count} committed frame(s)"
  | .aborting fault => s!"DEBUG post aborted: {fault.message}"
  | .unrecoverable token => s!"DEBUG recovery: no state accepts {names.token token}"
  | .resuming state => s!"DEBUG recovery: resynchronising in {names.state state}"
  | .recoveryRefused token => s!"DEBUG recovery: {names.token token} rejected"
  | .reposting token => s!"DEBUG recovery: re-posting {names.token token}"
  | .discarding token => s!"DEBUG recovery: discarding {names.token token}"
  | .endKept => "DEBUG recovery: end of input cannot be discarded"

def warning? : Notice S T P V → Option String
  | .syntaxError e => some s!"WARN syntax error: {e.message names.state names.token}"
  | .stackOverflow _ => some "ERROR parser stack overflow"
  | _ => none

end Names

end ShiftReduce
