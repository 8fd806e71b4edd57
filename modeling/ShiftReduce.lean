import ShiftReduce.Stack.Op
import ShiftReduce.Engine.Op
import ShiftReduce.Engine.Journal
import ShiftReduce.Tabular.Basic
import ShiftReduce.Tabular.Row
import ShiftReduce.Calculator.Parser
import ShiftReduce.Calculator.Recorder
import ShiftReduce.Calculator.Log
import ShiftReduce.Main
import ShiftReduce.Proofs.Stack.TwoLists
import ShiftReduce.Proofs.Engine.Base
import ShiftReduce.Proofs.Engine.Reached
import ShiftReduce.Proofs.Engine.Unwind
import ShiftReduce.Proofs.Engine.Atomic
import ShiftReduce.Proofs.Engine.Element
import ShiftReduce.Proofs.Calculator.Cell
import ShiftReduce.Proofs.Calculator.Path
import ShiftReduce.Proofs.Calculator.Proper
import ShiftReduce.Proofs.Calculator.Reduce
import ShiftReduce.Proofs.Calculator.Drive
import ShiftReduce.Proofs.Calculator.Tree
import ShiftReduce.Proofs.Calculator.Accept
import ShiftReduce.Proofs.Calculator.Arithmetic
import ShiftReduce.Proofs.Calculator.Complete
import ShiftReduce.Proofs.Calculator.Sound
import ShiftReduce.Proofs.Calculator.Language
import ShiftReduce.Proofs.Calculator.Observed
import ShiftReduce.Proofs.Calculator.Safe
import ShiftReduce.Proofs.Calculator.Parse
import ShiftReduce.Proofs.Engine.Whole
import ShiftReduce.Proofs.Calculator.Machine
import ShiftReduce.Proofs.Calculator.Boundary
import ShiftReduce.Proofs.Calculator.Inside
import ShiftReduce.Proofs.Calculator.Pieces
import ShiftReduce.Proofs.Calculator.Faithful
import ShiftReduce.Proofs.Calculator.Calculation
import ShiftReduce.Proofs.Calculator.Source
import ShiftReduce.Proofs.Calculator.Meaning
import ShiftReduce.Proofs.Calculator.Earlier
import ShiftReduce.Proofs.Calculator.After
import ShiftReduce.Proofs.Calculator.Stray
import ShiftReduce.Proofs.Engine.Founded
import ShiftReduce.Proofs.Engine.Resumption
import ShiftReduce.Proofs.Engine.Gather
import ShiftReduce.Proofs.Calculator.Earliest
import ShiftReduce.Proofs.Calculator.Refines
import ShiftReduce.Proofs.Engine.History
import ShiftReduce.Proofs.Calculator.Order
import ShiftReduce.Proofs.Calculator.Compose
import ShiftReduce.Proofs.Calculator.Reuse
import ShiftReduce.Proofs.Calculator.Exact
import ShiftReduce.Proofs.Calculator.Append
import ShiftReduce.Proofs.Calculator.Progress
import ShiftReduce.Proofs.Engine.Accounts
import ShiftReduce.Proofs.Calculator.Lossless
import ShiftReduce.Proofs.Calculator.Elsewhere
import ShiftReduce.Proofs.Engine.Endures
import ShiftReduce.Proofs.Calculator.Chain
import ShiftReduce.Proofs.Calculator.Placed
import ShiftReduce.Proofs.Frame.Interleaving
import ShiftReduce.Proofs.Engine.Tiling
import ShiftReduce.Proofs.Calculator.Builtin
import ShiftReduce.Proofs.Calculator.Printed
