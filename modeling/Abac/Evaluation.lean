import Abac.Condition
import Abac.Json

/-!
The result of evaluating a policy: whether it applies and with which effect, the user and resource
attributes that were read, and the condition on the resource. Results of several policies combine
so that a denial wins.
-/
namespace Abac

structure Evaluation where
  applicable : Bool := false
  effect : Option Effect := none
  user : Fields := ∅
  resource : Fields := ∅
  condition : Condition := ∅

structure CompiledCondition where
  user : Option Fields := none
  resource : Option Fields := none
  condition : Option Condition := none

namespace Evaluation

def isPermitted (e : Evaluation) : Bool := e.effect = some .permit

/-- Adds the reading and, if it applies, the condition of one part to a result. -/
def absorb (result part : Evaluation) : Evaluation :=
  { result with
    user := result.user.merge part.user
    resource := result.resource.merge part.resource
    condition := if part.applicable then result.condition.merge part.condition
      else result.condition }

def denies (part : Evaluation) : Bool := part.applicable && part.effect = some .deny

/-- The result of several parts: what they read is joined, and the conditions of those that apply
are merged. If the whole applies, one applicable part that denies makes it deny. -/
def combine (applicable : Bool) (parts : List Evaluation) : Evaluation :=
  { parts.foldl absorb {} with
    applicable
    effect := if applicable then some (if parts.any denies then .deny else .permit) else none }

def withUserMixins (e : Evaluation) (mixins : Json) : Evaluation :=
  match Value.ofJson mixins with
  | .object extra => { e with user := e.user.merge extra }
  | _ => e

def nonEmpty (fields : Fields) : Option Fields := if fields.isEmpty then none else some fields

def compiled (e : Evaluation) : CompiledCondition :=
  ⟨nonEmpty e.user, nonEmpty e.resource, nonEmpty e.condition⟩

end Evaluation

def Fields.toJson (fields : Fields) : Json := (Value.object fields).toJson

def CompiledCondition.toJson (c : CompiledCondition) : Json :=
  let part (name : String) (fields : Option Fields) : List (String × Json) :=
    fields.toList.map fun fields => (name, fields.toJson)
  .ofPairs (part "user" c.user ++ part "resource" c.resource ++ part "condition" c.condition)

end Abac
