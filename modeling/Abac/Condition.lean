import Abac.Operator
import Abac.Value.Path

/-!
Conditions in query form: nested objects from attributes to the values and operators they must
satisfy. A comparison that is not an equality stands as a pair of its symbol and its operand until
an operator object meets it on the same attribute; then it becomes part of that object. Values
under a combinator key are collected in a list, objects merge, and any other value is replaced by
the last one written.
-/
namespace Abac

abbrev Condition : Type := Fields

/-- The comparison that a value defers: an array of a symbol other than equality and an operand. -/
def Value.deferred? : Value → Option (Comparator × Value)
  | .array [.string symbol, operand] =>
    match Comparator.ofSymbol? symbol with
    | some c => if c = .eq then none else some (c, operand)
    | none => none
  | _ => none

def Entries.allDollar {α : Type} : {low : Option String} → Entries α low → Bool
  | _, .nil => true
  | _, .cons key _ _ rest => isDollarKey key && rest.allDollar

def Value.isOperatorForm : Value → Bool
  | .object fields => !fields.isEmpty && fields.allDollar
  | value => value.deferred?.isSome

/-- A deferred comparison as an object with its operator key; any other value as it is. -/
def Value.unfoldDeferred (value : Value) : Value :=
  match value.deferred? with
  | some (c, operand) => .object (Dict.insert ∅ c.operator.key operand)
  | none => value

namespace Condition

/-- Adds a value, or all elements of an array, to the list under a combinator key. -/
def append (node : Fields) (key : String) (value : Value) : Fields :=
  let present := match node.get? key with
    | none => []
    | some (.array items) => items
    | some other => [other]
  let added := match value with
    | .array items => items
    | other => [other]
  node.insert key (.array (present ++ added))

mutual

/-- What a slot holds after `value` was written into it. -/
def coalesce (slot : Value) : Value → Value
  | .array [.string symbol, operand] =>
    match Comparator.ofSymbol? symbol with
    | some c =>
      if c ≠ .eq ∧ slot.isOperatorForm then
        let operators := slot.unfoldDeferred.fields
        .object (operators.insert c.operator.key (match operators.get? c.operator.key with
          | some old => coalesce old operand
          | none => operand))
      else .array [.string symbol, operand]
    | none => .array [.string symbol, operand]
  | .object incoming =>
    let slot := if (Value.object incoming).isOperatorForm then slot.unfoldDeferred else slot
    match slot with
    | .object existing => .object (mergeEntries existing incoming)
    | _ => .object incoming
  | value => value

def mergeEntries (node : Fields) : {low : Option String} → Entries Value low → Fields
  | _, .nil => node
  | _, .cons key _ value rest =>
    mergeEntries
      (if isCombinator key then append node key value
        else node.insert key (match node.get? key with
          | some slot => coalesce slot value
          | none => value))
      rest

end

def setKey (node : Fields) (key : String) (value : Value) : Fields :=
  if isCombinator key then append node key value
  else node.insert key (match node.get? key with
    | some slot => coalesce slot value
    | none => value)

/-- Writes a value at an attribute. The empty attribute takes the entries of an object. -/
def assignValue (root : Condition) (path : List String) (value : Value) : Condition :=
  match path.getLast? with
  | some key => root.modifyAt (fun node => setKey node key value) path.dropLast
  | none =>
    match value with
    | .object incoming => mergeEntries root incoming
    | _ => root

/-- Writes what a rule states about an attribute. The key is the operator or combinator key behind
the attribute, if there is one. -/
def assign (root : Condition) (path : List String) (key : Option String)
    (comparator : Comparator) (value : Value) : Condition :=
  match key with
  | some key =>
    if isCombinator key then root.modifyAt (fun node => append node key value) path
    else root.assignValue path (.object (Dict.insert ∅ key value))
  | none =>
    root.assignValue path <|
      if comparator = .eq then value else .array [.string comparator.symbol, value]

def merge (root other : Condition) : Condition := mergeEntries root other

end Condition

end Abac
