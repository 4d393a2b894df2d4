import Abac.Comparison
import Abac.Declaration.OfText
import Abac.Evaluation
import Abac.GroupExpr.Parser
import Abac.Resolution
import Abac.Rule.Parser

/-!
Policies: compiled declarations, and their combinations. A leaf applies when its target and those
of its conditions that concern the subject hold; its conditions on the resource become the
condition of the evaluation. A group evaluates each member that its expression names.
-/
namespace Abac

structure Leaf where
  effect : Effect
  target : List Clause := []
  condition : List Clause := []

inductive Policy where
  | leaf (content : Leaf)
  | composite (op : Connective) (left right : Policy)
  | group (expression : GroupExpr) (members : List (String × Policy))

namespace Clause

/-- The operator that a clause tests with: that of its key if it has one, and else that of its
comparator. -/
def operator? (clause : Clause) : Option Operator :=
  match clause.path.key with
  | none => some clause.comparator.operator
  | some key => Operator.ofKey? key

/-- Tests a clause at once: both sides are read, and the test fails when the key is no operator or
the right side has no value. -/
def test (ctx : Context) (record : Record) (clause : Clause) : Bool × Record :=
  match clause.operator? with
  | none => (false, record)
  | some op =>
    let (field, record) := record.read ctx clause.path.ns clause.path.segments
    let (operand, record) := clause.expr.evaluate ctx record
    (operand.any fun operand => op.holds field operand, record)

def testAll (ctx : Context) (record : Record) : List Clause → Bool × Record
  | [] => (true, record)
  | clause :: rest =>
    match clause.test ctx record with
    | (true, record) => testAll ctx record rest
    | (false, record) => (false, record)

/-- What a clause on the resource adds to a condition: its own constraint, and one for each resource
attribute that its right side read. -/
def constrain (clause : Clause) (condition : Condition) (value : Value)
    (bindings : List Binding) : Condition :=
  bindings.foldl (fun condition binding => condition.assignValue binding.1 binding.2)
    (condition.assign clause.path.segments clause.path.key clause.comparator value)

end Clause

namespace Leaf

/-- Runs through the condition clauses of a leaf. Those on the subject are tested, and the first
that fails ends the run without a condition; those on the resource are added to the condition,
unless their right side has no value. -/
def runCondition (ctx : Context) (record : Record) (condition : Condition) :
    List Clause → Option Condition × Record
  | [] => (some condition, record)
  | clause :: rest =>
    if clause.path.ns.isSubject then
      match clause.test ctx record with
      | (true, record) => runCondition ctx record.clearBindings condition rest
      | (false, record) => (none, record.clearBindings)
    else
      match clause.expr.evaluate ctx record with
      | (some value, record) =>
        runCondition ctx record.clearBindings
          (clause.constrain condition value record.bindings) rest
      | (none, record) => runCondition ctx record.clearBindings condition rest

def evaluate (leaf : Leaf) (ctx : Context) : Evaluation :=
  let (targetHolds, record) := Clause.testAll ctx {} leaf.target
  let (condition, record) :=
    if targetHolds then runCondition ctx record.clearBindings ∅ leaf.condition
    else (none, record)
  match condition with
  | some condition => ⟨true, some leaf.effect, record.user, record.resource, condition⟩
  | none => ⟨false, none, record.user, record.resource, ∅⟩

def compile (declaration : LeafDeclaration) : Except PolicyError Leaf := do
  let target ← declaration.target.mapM Rule.parse
  let condition ← declaration.condition.mapM Rule.parse
  return ⟨declaration.effect, target, condition⟩

end Leaf

namespace Policy

mutual

def evaluate (ctx : Context) : Policy → Evaluation
  | .leaf content => content.evaluate ctx
  | .composite op left right =>
    let left := evaluate ctx left
    let right := evaluate ctx right
    .combine (op.apply left.applicable right.applicable) [left, right]
  | .group expression members =>
    let results := evaluateMembers ctx members
    .combine (expression.evaluate fun name => (results.lookup name).any (·.applicable))
      (results.map (·.2))

def evaluateMembers (ctx : Context) : List (String × Policy) → List (String × Evaluation)
  | [] => []
  | (name, policy) :: rest => (name, evaluate ctx policy) :: evaluateMembers ctx rest

end

def and (left right : Policy) : Policy := .composite .and left right

def or (left right : Policy) : Policy := .composite .or left right

def selectMembers (compiled : Dict Policy) : List String → Except PolicyError (List (String × Policy))
  | [] => .ok []
  | name :: rest =>
    match compiled.get? name with
    | none => .error (.unknownPolicy name)
    | some policy => do return (name, policy) :: (← selectMembers compiled rest)

mutual

/-- Compiles a declaration. The first fault in it is reported: in a leaf the rules come in their
order, those of the target first; in a group first the expression, then the members in the order of
their names, and then the names that no member has. -/
def compile : Declaration → Except PolicyError Policy
  | .leaf content => do return .leaf (← Leaf.compile content)
  | .group source policies => do
    let expression ← GroupExpr.parse source
    let compiled ← compileMembers policies
    return .group expression (← selectMembers compiled expression.names)

def compileMembers : {low : Option String} → Entries Declaration low →
    Except PolicyError (Entries Policy low)
  | _, .nil => .ok .nil
  | _, .cons name above declaration rest => do
    let policy ← compile declaration
    return .cons name above policy (← compileMembers rest)

end

def ofJson (value : Json) : Except PolicyError Policy :=
  match Declaration.ofJson value with
  | .ok declaration => compile declaration
  | .error fault => .error (.declaration fault)

def ofText (text : String) : Except PolicyError Policy :=
  match Declaration.ofText text with
  | .ok declaration => compile declaration
  | .error .malformed => .error .malformedJson
  | .error (.data fault) => .error (.declaration fault)

end Policy

end Abac
