import Abac.Declaration.Fault

/-!
Declarations from JSON values. An object is read field by field in key order and an array in the
order of the fields; the first fault ends the reading, and the shape is looked at last.
-/
namespace Abac.Declaration

def effectNamed (name : String) : Except Fault Effect :=
  match Effect.ofName? name with
  | some effect => .ok effect
  | none => .error (.unknownEffect name)

/-- An effect: its name, or an object with the name as its only key and nothing under it. -/
def effectOfJson : Json → Except Fault (Option Effect)
  | .null => .ok none
  | .string name => (effectNamed name).map some
  | .object (.cons name _ content .nil) => do
    let effect ← effectNamed name
    match content with
    | .null => return some effect
    | other => .error (.wrongType (.ofJson other) .unit)
  | .object _ => .error .notOneEntry
  | other => .error (.wrongType (.ofJson other) .effect)

def stringOfJson : Json → Except Fault String
  | .string s => .ok s
  | other => .error (.wrongType (.ofJson other) .string)

def rulesOfJson : Json → Except Fault (Option (List String))
  | .null => .ok none
  | .array items => (items.mapM stringOfJson).map some
  | other => .error (.wrongType (.ofJson other) .sequence)

def expressionOfJson : Json → Except Fault (Option String)
  | .null => .ok none
  | other => (stringOfJson other).map some

mutual

def ofJson : Json → Except Fault Declaration
  | .object fields => do (← draftOfFields {} fields).finish
  | .array items => do (← draftOfItems items.length {} Field.all items).finish
  | other => .error (.wrongType (.ofJson other) .declaration)

def draftOfFields (draft : Draft) : {low : Option String} → Entries Json low →
    Except Fault Draft
  | _, .nil => .ok draft
  | _, .cons key _ value rest =>
    match Field.ofName? key with
    | none => draftOfFields draft rest
    | some field =>
      match readField draft field value with
      | .error e => .error e
      | .ok draft => draftOfFields draft rest

/-- Reads the elements of an array as the given fields; `total` is the length of the array. -/
def draftOfItems (total : Nat) (draft : Draft) : List Field → List Json → Except Fault Draft
  | _, [] => .ok draft
  | [], _ :: _ => .error (.tooManyElements total)
  | field :: fields, value :: rest =>
    match readField draft field value with
    | .error e => .error e
    | .ok draft => draftOfItems total draft fields rest

def readField (draft : Draft) (field : Field) (value : Json) : Except Fault Draft :=
  match field with
  | .effect => do return { draft with effect := ← effectOfJson value }
  | .target => do return { draft with target := ← rulesOfJson value }
  | .condition => do return { draft with condition := ← rulesOfJson value }
  | .expression => do return { draft with expression := ← expressionOfJson value }
  | .policies =>
    match value with
    | .null => .ok { draft with policies := none }
    | .object members => do return { draft with policies := some (← membersOfJson members) }
    | other => .error (.wrongType (.ofJson other) .map)

def membersOfJson : {low : Option String} → Entries Json low →
    Except Fault (Entries Declaration low)
  | _, .nil => .ok .nil
  | _, .cons name above value rest => do
    let policy ← ofJson value
    return .cons name above policy (← membersOfJson rest)

end

end Abac.Declaration
