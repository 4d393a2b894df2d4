import Abac.Declaration
import Abac.Json.Text
import Abac.QuotedText

/-!
What can be wrong with the data of a declaration, and how it is said. A fault of shape concerns the
fields that stand together, any other fault a single value.
-/
namespace Abac.Declaration

inductive Expected where
  | declaration | sequence | string | map | effect | variant | unit
deriving DecidableEq, Repr

def Expected.text : Expected → String
  | declaration => "struct RawDeclaration"
  | sequence => "a sequence"
  | string => "a string"
  | map => "a map"
  | effect => "string or map"
  | variant => "variant identifier"
  | unit => "unit"

inductive Found where
  | null
  | bool (b : Bool)
  | number (n : Json.Number)
  | string (s : String)
  | sequence
  | map

namespace Found

def ofJson : Json → Found
  | .null => null
  | .bool b => bool b
  | .number n => number n
  | .string s => string s
  | .array _ => sequence
  | .object _ => map

def backquote (text : String) : String := "\x60" ++ text ++ "\x60"

def text : Found → String
  | null => "null"
  | bool b => "boolean " ++ backquote (if b then "true" else "false")
  | number (.integer n) => "integer " ++ backquote (Json.Number.integer n).text
  | number (.decimal x) => "floating point " ++ backquote (Json.Number.decimal x).text
  | string s => "string " ++ QuotedText.quote s
  | sequence => "sequence"
  | map => "map"

end Found

inductive Fault where
  | wrongType (found : Found) (expected : Expected)
  | unknownEffect (name : String)
  | notOneEntry
  | duplicateField (field : Field)
  | tooManyElements (count : Nat)
  | missingEffect
  | mixedFields
  | missingExpression
  | missingPolicies
  | noPolicies

open Found in
def Fault.message : Fault → String
  | wrongType found expected => "invalid type: " ++ found.text ++ ", expected " ++ expected.text
  | unknownEffect name => "unknown variant " ++ backquote name ++ ", expected " ++
      String.intercalate " or " (Effect.all.map fun effect => backquote effect.name)
  | notOneEntry => "invalid value: map, expected map with a single key"
  | duplicateField field => "duplicate field " ++ backquote field.name
  | tooManyElements count => "invalid length " ++ String.ofList (Digits.ofNat count) ++
      ", expected fewer elements in array"
  | missingEffect => "策略缺少 effect（permit 或 deny）"
  | mixedFields => "组策略不能声明 effect、target 或 condition"
  | missingExpression => "组策略缺少 expression"
  | missingPolicies => "组策略缺少 policies"
  | noPolicies => "组策略的 policies 不能为空"

/-- The fields of a declaration as far as they have been read. A field with `null` in it counts as
absent. -/
structure Draft where
  effect : Option Effect := none
  target : Option (List String) := none
  condition : Option (List String) := none
  expression : Option String := none
  policies : Option (Entries Declaration none) := none

/-- The declaration with the fields of a draft: a group if it has an expression or members, and
otherwise a leaf. -/
def Draft.finish (draft : Draft) : Except Fault Declaration :=
  if draft.expression.isSome ∨ draft.policies.isSome then
    if draft.effect.isSome ∨ draft.target.isSome ∨ draft.condition.isSome then .error .mixedFields
    else
      match draft.expression, draft.policies with
      | none, _ => .error .missingExpression
      | _, none => .error .missingPolicies
      | some expression, some policies =>
        if policies.isEmpty then .error .noPolicies else .ok (.group expression policies)
  else
    match draft.effect with
    | none => .error .missingEffect
    | some effect => .ok (.leaf ⟨effect, draft.target.getD [], draft.condition.getD []⟩)

end Abac.Declaration
