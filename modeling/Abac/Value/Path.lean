import Abac.Value

/-!
Objects inside objects. A path of keys leads from an object to a value inside it; `at?` reads there
and `insertAt` writes there, putting an empty object in the place of whatever blocks the way. Two
objects merge key by key, and where both hold an object under a key these merge in turn.
-/
namespace Abac

namespace Value

def at? (value : Value) : List String → Option Value
  | [] => some value
  | key :: path =>
    match value with
    | .object fields => (fields.get? key).bind fun inner => inner.at? path
    | _ => none

end Value

abbrev Fields : Type := Dict Value

namespace Fields

/-- The fields of the object under a key; whatever else is there counts as an empty object. -/
def under (root : Fields) (key : String) : Fields :=
  match root.get? key with
  | some value => value.fields
  | none => ∅

def at? (root : Fields) (path : List String) : Option Value := (Value.object root).at? path

def modifyAt (root : Fields) (change : Fields → Fields) : List String → Fields
  | [] => change root
  | key :: path => root.insert key (.object (modifyAt (root.under key) change path))

/-- Writes a value at a path, making objects on the way. At the empty path the fields of an object
are taken over, and any other value changes nothing. -/
def insertAt (root : Fields) (path : List String) (value : Value) : Fields :=
  match path.getLast? with
  | some key => root.modifyAt (fun node => node.insert key value) path.dropLast
  | none =>
    match value with
    | .object fields => root.extend fields
    | _ => root

mutual

def mergeSlot (old : Option Value) : Value → Value
  | .object incoming =>
    match old with
    | some (.object existing) => .object (merge existing incoming)
    | _ => .object incoming
  | value => value

/-- Takes over all entries; where a key holds an object on both sides, the two are merged. -/
def merge (root : Fields) : {low : Option String} → Entries Value low → Fields
  | _, .nil => root
  | _, .cons key _ value rest => merge (root.insert key (mergeSlot (root.get? key) value)) rest

end

end Fields

end Abac
