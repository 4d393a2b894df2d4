/-!
The operators of the rule language: the comparators between the two sides of a rule, the operator
keys that start with a dollar sign, the combinator keys, and the arithmetic and logical operators.
-/
namespace Abac

/-- A test of an attribute against an operand, named by a key that starts with a dollar sign. -/
inductive Operator where
  | eq | ne | gt | gte | lt | lte | member | notMember | regex | «exists»
deriving DecidableEq, Repr

namespace Operator

def key : Operator → String
  | eq => "$eq"
  | ne => "$ne"
  | gt => "$gt"
  | gte => "$gte"
  | lt => "$lt"
  | lte => "$lte"
  | member => "$in"
  | notMember => "$nin"
  | regex => "$regex"
  | «exists» => "$exists"

def all : List Operator := [eq, ne, gt, gte, lt, lte, member, notMember, regex, «exists»]

def ofKey? (key : String) : Option Operator := all.find? fun op => op.key = key

end Operator

inductive Comparator where
  | eq | ne | gt | gte | lt | lte
deriving DecidableEq, Repr

namespace Comparator

def symbol : Comparator → String
  | eq => "="
  | ne => "!="
  | gt => ">"
  | gte => ">="
  | lt => "<"
  | lte => "<="

def all : List Comparator := [eq, ne, gt, gte, lt, lte]

def ofSymbol? (symbol : String) : Option Comparator := all.find? fun c => c.symbol = symbol

def operator : Comparator → Operator
  | eq => .eq
  | ne => .ne
  | gt => .gt
  | gte => .gte
  | lt => .lt
  | lte => .lte

end Comparator

/-- The keys under which alternatives are collected: an assignment adds to the list there. -/
def combinatorKeys : List String := ["$or", "$and", "$nor"]

def isCombinator (key : String) : Bool := combinatorKeys.contains key

def isDollarKey (key : String) : Bool := key.toList.head? = some '$'

inductive Arithmetic where
  | add | sub | mul | div
deriving DecidableEq, Repr

def Arithmetic.symbol : Arithmetic → String
  | add => "+"
  | sub => "-"
  | mul => "*"
  | div => "/"

inductive Connective where
  | and | or
deriving DecidableEq, Repr

namespace Connective

def name : Connective → String
  | and => "AND"
  | or => "OR"

def all : List Connective := [and, or]

def ofName? (name : String) : Option Connective := all.find? fun c => c.name = name

def apply : Connective → Bool → Bool → Bool
  | and, a, b => a && b
  | or, a, b => a || b

end Connective

inductive Effect where
  | permit | deny
deriving DecidableEq, Repr

namespace Effect

def name : Effect → String
  | permit => "permit"
  | deny => "deny"

def all : List Effect := [permit, deny]

def ofName? (name : String) : Option Effect := all.find? fun e => e.name = name

end Effect

end Abac
