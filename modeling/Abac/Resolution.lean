import Abac.Context
import Abac.Value.Path

/-!
Evaluating the right side of a rule. An expression has no value when an attribute in it is missing
or its arithmetic has no result. What it reads is recorded on the way: the user and the resource
attributes as snapshots, and the resource attributes once more as bindings, in reading order. A
missing part stops neither the reading nor the recording of the others.
-/
namespace Abac

/-- A resource attribute that was read, and its value. -/
abbrev Binding : Type := List String × Value

structure Record where
  user : Fields := ∅
  resource : Fields := ∅
  bindings : List Binding := []

namespace Record

/-- The bindings that the reading of a resource attribute adds. A reading of the whole table binds
each of its attributes. -/
def bindingsOf (segments : List String) (value : Value) : List Binding :=
  match segments, value with
  | [], .object fields => fields.toList.map fun entry => ([entry.1], entry.2)
  | [], _ => []
  | segments, value => [(segments, value)]

def note (record : Record) (ns : Namespace) (segments : List String) (value : Value) : Record :=
  match ns with
  | .user => { record with user := record.user.insertAt segments value }
  | .resource =>
    { record with
      resource := record.resource.insertAt segments value
      bindings := record.bindings ++ bindingsOf segments value }
  | .action | .environment => record

def read (record : Record) (ctx : Context) (ns : Namespace) (segments : List String) :
    Option Value × Record :=
  match ctx.value? ns segments with
  | some value => (some value, record.note ns segments value)
  | none => (none, record)

def clearBindings (record : Record) : Record := { record with bindings := [] }

end Record

def Arithmetic.compute (op : Arithmetic) (a b : Float) : Option Float :=
  let result := match op with
    | .add => a + b
    | .sub => a - b
    | .mul => a * b
    | .div => a / b
  if op = .div ∧ b == 0.0 then none else if result.isFinite then some result else none

/-- The value that an arithmetic operator makes of two values. A sum with a string joins texts. -/
def Arithmetic.apply (op : Arithmetic) (lhs rhs : Value) : Option Value :=
  if op = .add ∧ (lhs.isString || rhs.isString) then some (.string (lhs.text ++ rhs.text))
  else do
    let a ← lhs.number?
    let b ← rhs.number?
    (op.compute a b).map .number

namespace Expr

mutual

def evaluate (ctx : Context) (record : Record) : Expr → Option Value × Record
  | .literal value => (some value, record)
  | .regex pattern => (some (.regex pattern), record)
  | .path source => record.read ctx source.ns source.segments
  | .array items =>
    let (values, record) := evaluateItems ctx record items
    (values.map .array, record)
  | .object entries =>
    let (pairs, record) := evaluateEntries ctx record entries
    (pairs.map fun pairs => .object (Dict.ofList pairs), record)
  | .binary op lhs rhs =>
    let (left, record) := evaluate ctx record lhs
    let (right, record) := evaluate ctx record rhs
    (left.bind fun left => right.bind fun right => op.apply left right, record)

def evaluateItems (ctx : Context) (record : Record) : List Expr → Option (List Value) × Record
  | [] => (some [], record)
  | item :: rest =>
    let (value, record) := evaluate ctx record item
    let (values, record) := evaluateItems ctx record rest
    (value.bind fun value => values.map (value :: ·), record)

def evaluateEntries (ctx : Context) (record : Record) :
    List (String × Expr) → Option (List (String × Value)) × Record
  | [] => (some [], record)
  | (key, expr) :: rest =>
    let (value, record) := evaluate ctx record expr
    let (pairs, record) := evaluateEntries ctx record rest
    (value.bind fun value => pairs.map ((key, value) :: ·), record)

end

end Expr

end Abac
