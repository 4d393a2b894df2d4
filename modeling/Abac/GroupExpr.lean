/-!
Group expressions: boolean expressions over the names of policies.
-/
namespace Abac

inductive GroupExpr where
  | policy (name : String)
  | not (inner : GroupExpr)
  | and (lhs rhs : GroupExpr)
  | or (lhs rhs : GroupExpr)
deriving DecidableEq, Repr

namespace GroupExpr

/-- The names in reading order, repetitions included. -/
def occurrences : GroupExpr → List String
  | policy name => [name]
  | not inner => inner.occurrences
  | and lhs rhs => lhs.occurrences ++ rhs.occurrences
  | or lhs rhs => lhs.occurrences ++ rhs.occurrences

def addNew (seen : List String) : List String → List String
  | [] => seen
  | name :: rest => addNew (if seen.contains name then seen else seen ++ [name]) rest

def names (e : GroupExpr) : List String := addNew [] e.occurrences

def evaluate (applicable : String → Bool) : GroupExpr → Bool
  | policy name => applicable name
  | not inner => !inner.evaluate applicable
  | and lhs rhs => lhs.evaluate applicable && rhs.evaluate applicable
  | or lhs rhs => lhs.evaluate applicable || rhs.evaluate applicable

/-- The expression with every conjunction and disjunction in parentheses. -/
def text : GroupExpr → String
  | policy name => name
  | not inner => "NOT " ++ inner.text
  | and lhs rhs => "(" ++ lhs.text ++ " AND " ++ rhs.text ++ ")"
  | or lhs rhs => "(" ++ lhs.text ++ " OR " ++ rhs.text ++ ")"

def height : GroupExpr → Nat
  | policy _ => 0
  | not inner => inner.height + 1
  | and lhs rhs => max lhs.height rhs.height + 1
  | or lhs rhs => max lhs.height rhs.height + 1

end GroupExpr

end Abac
