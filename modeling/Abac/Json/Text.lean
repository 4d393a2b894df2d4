import Abac.Decimal.Notation
import Abac.Json

/-!
The compact text of a JSON value: no blanks, keys in order, and only those characters of a string
escaped that have to be.
-/
namespace Abac.Json

def characterText (c : Char) : List Char :=
  match c with
  | '"' => ['\\', '"']
  | '\\' => ['\\', '\\']
  | '\x08' => ['\\', 'b']
  | '\x0c' => ['\\', 'f']
  | '\n' => ['\\', 'n']
  | '\r' => ['\\', 'r']
  | '\t' => ['\\', 't']
  | c =>
    if c.toNat < 0x20 then '\\' :: 'u' :: Digits.padTo 4 (Digits.hexOfNat c.toNat) else [c]

def stringText (s : String) : String :=
  String.ofList ('"' :: s.toList.flatMap characterText ++ ['"'])

/-- The text of a number; one that is not finite has none and is written as `null`. -/
def Number.text : Number → String
  | .integer n => Digits.textOfInt n
  | .decimal x => if x.isFinite then Decimal.jsonNotation.text x else "null"

def commaSeparated (texts : List String) : String := String.intercalate "," texts

mutual

def text : Json → String
  | .null => "null"
  | .bool b => if b then "true" else "false"
  | .number n => n.text
  | .string s => stringText s
  | .array items => "[" ++ commaSeparated (itemTexts items) ++ "]"
  | .object fields => "\x7b" ++ commaSeparated (fieldTexts fields) ++ "\x7d"

def itemTexts : List Json → List String
  | [] => []
  | item :: rest => item.text :: itemTexts rest

def fieldTexts : {low : Option String} → Entries Json low → List String
  | _, .nil => []
  | _, .cons key _ value rest => (stringText key ++ ":" ++ value.text) :: fieldTexts rest

end

end Abac.Json
