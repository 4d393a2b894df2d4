import Abac.Rule

/-!
The context of an evaluation: one table of attributes for each namespace. A path leads through
objects by key and through arrays by index.
-/
namespace Abac

/-- The index that a path segment denotes: digits, with an optional plus sign. -/
def arrayIndex? (segment : String) : Option Nat :=
  let digits := match segment.toList with
    | '+' :: rest => rest
    | text => text
  if digits ≠ [] ∧ digits.all Digits.isDecimal then some (Digits.ofDecimal digits) else none

def Json.at? (value : Json) : List String → Option Json
  | [] => some value
  | segment :: path =>
    match value with
    | .object fields => (fields.get? segment).bind fun inner => inner.at? path
    | .array items =>
      (arrayIndex? segment).bind fun index => items[index]?.bind fun inner => inner.at? path
    | _ => none

structure Context where
  user : Dict Json := ∅
  action : Dict Json := ∅
  environment : Dict Json := ∅
  resource : Dict Json := ∅

namespace Context

/-- The table that a part of a request supplies: an object, and an empty table for anything else. -/
def tableOf : Option Json → Dict Json
  | some (.object fields) => fields
  | _ => ∅

def ofParts (user action environment resource : Option Json) : Context :=
  ⟨tableOf user, tableOf action, tableOf environment, tableOf resource⟩

def withUser (ctx : Context) (part : Json) : Context := { ctx with user := tableOf part }

def withAction (ctx : Context) (part : Json) : Context := { ctx with action := tableOf part }

def withEnvironment (ctx : Context) (part : Json) : Context :=
  { ctx with environment := tableOf part }

def withResource (ctx : Context) (part : Json) : Context := { ctx with resource := tableOf part }

def table (ctx : Context) : Namespace → Dict Json
  | .user => ctx.user
  | .action => ctx.action
  | .environment => ctx.environment
  | .resource => ctx.resource

/-- The JSON of an attribute; the empty path leads to the whole table. -/
def lookup (ctx : Context) (ns : Namespace) (segments : List String) : Option Json :=
  (Json.object (ctx.table ns)).at? segments

def value? (ctx : Context) (ns : Namespace) (segments : List String) : Option Value :=
  (ctx.lookup ns segments).map Value.ofJson

end Context

end Abac
