import Abac.Operator
import Abac.Regex
import Abac.Value

/-!
Testing an attribute against an operand. A test that cannot be made, because the attribute is
missing, the types do not fit or the pattern is invalid, fails.
-/
namespace Abac

/-- Numbers closer to each other than this count as equal: the distance between one and the next
larger binary number. -/
def tolerance : Float := Float.ofBits 0x3CB0000000000000

namespace Value

def matchesPattern (value : Value) (pattern : Pattern) : Bool :=
  match pattern.compile? with
  | none => false
  | some compiled =>
    match value with
    | .string s => compiled.isMatch s
    | .array items => items.any fun item => item.string?.any compiled.isMatch
    | _ => false

/-- Whether an operand accepts a value that is no array: it is a pattern that matches, or nearly the
same number, or equal. -/
def acceptsSingle (operand value : Value) : Bool :=
  match operand, value with
  | .regex p, value => value.matchesPattern p
  | .number b, .number a => (a - b).abs < tolerance
  | operand, value => value.equal operand

mutual

/-- Whether an operand accepts a value. An operand that is no array itself accepts an array if it
accepts an element of it. -/
def accepts (operand : Value) : Value → Bool
  | .array items =>
    match operand with
    | .regex p => (Value.array items).matchesPattern p
    | .array _ => (Value.array items).equal operand
    | _ => acceptsAny operand items
  | value => operand.acceptsSingle value

def acceptsAny (operand : Value) : List Value → Bool
  | [] => false
  | item :: rest => accepts operand item || acceptsAny operand rest

end

def asNumber : Value → Option Float
  | .number x => some x
  | .string s => Decimal.readFloat s.toList
  | _ => none

def compareNumbers (a b : Float) : Option Ordering :=
  if a < b then some .lt else if a == b then some .eq else if b < a then some .gt else none

def compareTexts (a b : String) : Ordering :=
  if a < b then .lt else if a = b then .eq else .gt

/-- The order of two values: as numbers if both denote one, and else as strings. -/
def order? (a b : Value) : Option Ordering :=
  match a.asNumber, b.asNumber with
  | some x, some y => compareNumbers x y
  | _, _ =>
    match a, b with
    | .string s, .string t => some (compareTexts s t)
    | _, _ => none

/-- Whether one of the candidates accepts a value or, of an array, an element. -/
def memberOf (value : Value) (candidates : List Value) : Bool :=
  match value with
  | .array items => items.any fun item => candidates.any fun c => c.accepts item
  | value => candidates.any fun c => c.accepts value

end Value

namespace Operator

def holdsOf (op : Operator) (value operand : Value) : Bool :=
  match op with
  | eq => operand.accepts value
  | ne => !operand.accepts value
  | gt => (value.order? operand).any fun o => o.isGT
  | gte => (value.order? operand).any fun o => o.isGE
  | lt => (value.order? operand).any fun o => o.isLT
  | lte => (value.order? operand).any fun o => o.isLE
  | member => operand.items?.any value.memberOf
  | notMember => operand.items?.any fun candidates => !value.memberOf candidates
  | regex =>
    match operand with
    | .regex p => value.matchesPattern p
    | .string source => value.matchesPattern ⟨source, ""⟩
    | _ => false
  | «exists» => true

def wantsPresence : Value → Bool
  | .bool false => false
  | .null => false
  | _ => true

def holds (op : Operator) (value : Option Value) (operand : Value) : Bool :=
  if op = «exists» then value.isSome == wantsPresence operand
  else value.any fun value => op.holdsOf value operand

end Operator

end Abac
