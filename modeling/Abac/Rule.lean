import Abac.Operator
import Abac.Value

/-!
Rules: an attribute path, a comparator and an expression for the right side. A path belongs to one
of four namespaces and may end in an operator key.
-/
namespace Abac

inductive Namespace where
  | user | action | environment | resource
deriving DecidableEq, Repr

namespace Namespace

def name : Namespace → String
  | user => "user"
  | action => "action"
  | environment => "environment"
  | resource => "resource"

def all : List Namespace := [user, action, environment, resource]

def ofName? (name : String) : Option Namespace := all.find? fun ns => ns.name = name

/-- The namespaces whose attributes are all known when a policy is evaluated. -/
def isSubject : Namespace → Bool
  | resource => false
  | _ => true

end Namespace

/-- A path to an attribute, and the operator key after it, if there is one. -/
structure AttributePath where
  ns : Namespace
  segments : List String
  key : Option String := none
deriving DecidableEq, Repr

namespace AttributePath

def isCombinator (path : AttributePath) : Bool := path.key.any Abac.isCombinator

def text (path : AttributePath) : String :=
  String.intercalate "." (path.ns.name :: path.segments ++ path.key.toList)

end AttributePath

inductive Expr where
  | literal (value : Value)
  | path (path : AttributePath)
  | regex (pattern : Pattern)
  | array (items : List Expr)
  | object (entries : List (String × Expr))
  | binary (op : Arithmetic) (lhs rhs : Expr)

structure Clause where
  source : String
  path : AttributePath
  comparator : Comparator
  expr : Expr

end Abac
