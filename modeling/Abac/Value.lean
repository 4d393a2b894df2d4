import Abac.Json.Text
import Abac.Pattern

/-!
The values that attributes and rules have: those of JSON, with every number a binary number, and
patterns. A value turns into JSON text whose integers have no point.
-/
namespace Abac

inductive Value where
  | null
  | bool (b : Bool)
  | number (x : Float)
  | string (s : String)
  | regex (pattern : Pattern)
  | array (items : List Value)
  | object (fields : Entries Value none)

namespace Value

instance : Inhabited Value := ⟨.null⟩

def emptyObject : Value := .object .nil

def isNull : Value → Bool
  | .null => true
  | _ => false

def isArray : Value → Bool
  | .array _ => true
  | _ => false

def isObject : Value → Bool
  | .object _ => true
  | _ => false

def isString : Value → Bool
  | .string _ => true
  | _ => false

def number? : Value → Option Float
  | .number x => some x
  | _ => none

def string? : Value → Option String
  | .string s => some s
  | _ => none

def items? : Value → Option (List Value)
  | .array items => some items
  | _ => none

def fields? : Value → Option (Dict Value)
  | .object fields => some fields
  | _ => none

/-- The fields of an object; any other value counts as an empty one. -/
def fields : Value → Dict Value
  | .object fields => fields
  | _ => ∅

mutual

def ofJson : Json → Value
  | .null => .null
  | .bool b => .bool b
  | .number n => .number n.toFloat
  | .string s => .string s
  | .array items => .array (ofJsonItems items)
  | .object fields => .object (ofJsonFields fields)

def ofJsonItems : List Json → List Value
  | [] => []
  | item :: rest => ofJson item :: ofJsonItems rest

def ofJsonFields : {low : Option String} → Entries Json low → Entries Value low
  | _, .nil => .nil
  | _, .cons key above value rest => .cons key above (ofJson value) (ofJsonFields rest)

end

end Value

namespace Decimal

/-- The size of a number without fraction; infinities and not-a-number count as very large. -/
def Binary.integral? (x : Binary) : Option Nat :=
  if 0 ≤ x.exponent then some (x.significand * Nat.pow 2 x.exponent.natAbs)
  else if x.significand % Nat.pow 2 x.exponent.natAbs = 0 then
    some (x.significand / Nat.pow 2 x.exponent.natAbs)
  else none

def integerBound : Nat := 0x20000000000000

def smallInteger? (x : Float) : Option Int :=
  let bits := x.toBits.toNat
  match (Binary.ofBits (bits % signBit)).integral? with
  | some n =>
    if n < integerBound then some (if signBit ≤ bits then -(n : Int) else n) else none
  | none => none

end Decimal

namespace Value

/-- The JSON of a number: an integer if it is one of moderate size, and `null` if not finite. -/
def numberJson (x : Float) : Json :=
  match Decimal.smallInteger? x with
  | some n => .number (.integer n)
  | none => if x.isFinite then .number (.decimal x) else .null

def patternJson (pattern : Pattern) : Json :=
  .ofPairs [("$regex", .string pattern.source), ("$options", .string pattern.flags)]

mutual

def toJson : Value → Json
  | .null => .null
  | .bool b => .bool b
  | .number x => numberJson x
  | .string s => .string s
  | .regex pattern => patternJson pattern
  | .array items => .array (toJsonItems items)
  | .object fields => .object (toJsonFields fields)

def toJsonItems : List Value → List Json
  | [] => []
  | item :: rest => item.toJson :: toJsonItems rest

def toJsonFields : {low : Option String} → Entries Value low → Entries Json low
  | _, .nil => .nil
  | _, .cons key above value rest => .cons key above value.toJson (toJsonFields rest)

end

/-- The value as text: a string is its own text, a pattern is written between slashes, and any
other value as JSON. -/
def text : Value → String
  | .string s => s
  | .regex pattern => pattern.text
  | value => value.toJson.text

mutual

/-- Equality of values; numbers compare as numbers, so not-a-number equals nothing. -/
def equal : Value → Value → Bool
  | .null, .null => true
  | .bool a, .bool b => a == b
  | .number a, .number b => a == b
  | .string a, .string b => a == b
  | .regex a, .regex b => a == b
  | .array a, .array b => equalItems a b
  | .object a, .object b => equalFields a b
  | _, _ => false

def equalItems : List Value → List Value → Bool
  | [], [] => true
  | a :: as, b :: bs => a.equal b && equalItems as bs
  | _, _ => false

def equalFields : {low low' : Option String} → Entries Value low → Entries Value low' → Bool
  | _, _, .nil, .nil => true
  | _, _, .cons k _ a as, .cons k' _ b bs => k == k' && a.equal b && equalFields as bs
  | _, _, _, _ => false

end

end Value

end Abac
