import Abac.Json
import Abac.Operator

/-!
Declarations, the form in which policies are supplied: a leaf with an effect and the rules of its
target and condition, or a group with an expression over named member declarations.
-/
namespace Abac

structure LeafDeclaration where
  effect : Effect
  target : List String := []
  condition : List String := []
deriving DecidableEq, Repr

inductive Declaration where
  | leaf (leaf : LeafDeclaration)
  | group (expression : String) (policies : Entries Declaration none)

namespace Declaration

instance : Inhabited Declaration := ⟨.leaf ⟨.permit, [], []⟩⟩

/-- The fields that a declaration may have, in the order of its array form. -/
inductive Field where
  | effect | target | condition | expression | policies
deriving DecidableEq, Repr

namespace Field

def name : Field → String
  | effect => "effect"
  | target => "target"
  | condition => "condition"
  | expression => "expression"
  | policies => "policies"

def all : List Field := [effect, target, condition, expression, policies]

def ofName? (name : String) : Option Field := all.find? fun field => field.name = name

end Field

def rulesField (name : String) (rules : List String) : List (String × Json) :=
  if rules.isEmpty then [] else [(name, Json.strings rules)]

def leafJson (leaf : LeafDeclaration) : Json :=
  .ofPairs <| ("effect", .string leaf.effect.name) ::
    (rulesField "target" leaf.target ++ rulesField "condition" leaf.condition)

def groupJson (expression : String) (policies : Entries Json none) : Json :=
  .ofPairs [("expression", .string expression), ("policies", .object policies)]

mutual

def toJson : Declaration → Json
  | .leaf content => leafJson content
  | .group expression policies => groupJson expression (toJsonEntries policies)

def toJsonEntries : {low : Option String} → Entries Declaration low → Entries Json low
  | _, .nil => .nil
  | _, .cons name above policy rest => .cons name above policy.toJson (toJsonEntries rest)

end

end Declaration

end Abac
