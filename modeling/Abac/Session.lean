import Abac.Policy

/-!
Sessions: a policy that is checked first and whose condition is read afterwards. A session keeps
the result of the last check.
-/
namespace Abac

structure Session where
  policy : Policy
  last : Option Evaluation := none

namespace Session

def check (session : Session) (ctx : Context) : Bool × Session :=
  let evaluation := session.policy.evaluate ctx
  (evaluation.applicable, { session with last := some evaluation })

def condition (session : Session) : Except PolicyError CompiledCondition :=
  match session.last with
  | some evaluation => .ok evaluation.compiled
  | none => .error .notChecked

def conditionWith (session : Session) (mixins : Json) : Except PolicyError CompiledCondition :=
  match session.last with
  | some evaluation => .ok (evaluation.withUserMixins mixins).compiled
  | none => .error .notChecked

end Session

end Abac
