import ShiftReduce.Fault
import ShiftReduce.Frame
import ShiftReduce.Tabular.Datum

namespace ShiftReduce

inductive Recipe : Type
  | constant (v : Datum)
  | get (i : Nat)
  | sequence (i : Nat)
  | reversed (i : Nat)
  | ends (i : Nat)
  | sequenceSize (i : Nat)
  | optional (i : Nat)
  | extent (i : Nat)
  | size
  | sum (is : List Nat)
  | list (items : List Recipe)
  | fail (fault : Fault)
  | refuse (i : Nat) (v : Datum)

namespace Recipe

variable {S : Type}

abbrev Outcome := Except (Halt Fault)

def within {α : Type} : Option α → Outcome α
  | some a => .ok a
  | none => .error .crash

def alternate : Nat → Cursor S Datum → List Datum
  | 0, _ => []
  | steps + 1, c =>
    match c.next with
    | (none, _) => []
    | (some front, c) =>
      let left := Datum.ofNat c.length
      match c.nextBack with
      | (some back, c) => front :: left :: back :: alternate steps c
      | (none, c) => front :: left :: alternate steps c

mutual

def value (args : Args S Datum) : Recipe → Outcome Datum
  | .constant v => .ok v
  | .get i => within (args.get? i)
  | .sequence i => do
    let items ← within (args.sequence? i)
    return .list items
  | .reversed i => do
    let items ← within (args.sequence? i)
    return .list items.reverse
  | .ends i => do
    let cursor ← within (args.cursor? i)
    return .list (alternate cursor.length cursor)
  | .sequenceSize i => do
    let extent ← within (args.extent? i)
    let length := Datum.ofNat extent.length
    return .list [length, .ofBool (extent.length == 0), length]
  | .optional i => do
    let found ← within (args.optional? i)
    return .list (.ofBool found.isSome :: .ofBool found.isNone :: found.toList)
  | .extent i => do
    let extent ← within (args.extent? i)
    return .list [.ofNat extent.start, .ofNat extent.stop]
  | .size => .ok (.list [.ofNat args.size, .ofBool (args.size == 0)])
  | .sum is => do
    let items ← is.mapM fun i => within (args.get? i)
    return .int ((items.map Datum.weight).sum.bmod (2 ^ 64))
  | .list items => do
    let items ← values args items
    return .list items
  | .fail fault => .error (.raised fault)
  | .refuse i v => do
    let found ← within (args.get? i)
    if found.same v then .error (.raised (.action "refused")) else return found

def values (args : Args S Datum) : List Recipe → Outcome (List Datum)
  | [] => .ok []
  | item :: items => do
    let first ← item.value args
    let rest ← values args items
    return first :: rest

end

end Recipe

end ShiftReduce
