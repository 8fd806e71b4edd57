import ShiftReduce.Engine.Log
import ShiftReduce.Calculator.Client

namespace ShiftReduce.Calculator

def names : Names State Terminal Production Value where
  state := State.label
  token := Terminal.name
  production := Production.name
  value := Value.text

def Event.lines : Event → List String
  | .token t span => [s!"TRACE {t.name} at {span.text}"]
  | .notice n span =>
    names.line n :: match n with
      | .syntaxError e => [s!"DEBUG {span.text}: {diagnosis e}"]
      | .stackOverflow _ => [s!"WARN parser stack overflow at {span.text}"]
      | _ => []

end ShiftReduce.Calculator
