import Abac.Decimal
import Abac.Dict

/-!
JSON values. Integers that fit in 64 bits are kept exactly and every other number is a binary
floating-point number; an object has its keys in increasing order and each key once.
-/
namespace Abac

/-- A number of a JSON value: an integer from `-2^63` to `2^64 - 1`, or a finite binary number. -/
inductive Json.Number where
  | integer (n : Int)
  | decimal (x : Float)

inductive Json where
  | null
  | bool (b : Bool)
  | number (n : Json.Number)
  | string (s : String)
  | array (items : List Json)
  | object (fields : Entries Json none)

namespace Json

instance : Inhabited Json := ⟨.null⟩

def Number.toFloat : Number → Float
  | .integer n => (Numeral.mk (decide (n < 0)) n.natAbs 0).toFloat
  | .decimal x => x

def emptyObject : Json := .object .nil

def ofPairs (pairs : List (String × Json)) : Json := .object (Dict.ofList pairs)

def strings (texts : List String) : Json := .array (texts.map .string)

def natural (n : Nat) : Json := .number (.integer n)

def field? (key : String) : Json → Option Json
  | .object fields => fields.get? key
  | _ => none

end Json

end Abac
