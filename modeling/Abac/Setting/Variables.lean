import Abac.Setting.Place

/-!
Settings from variables of the process. The name of such a variable is a common prefix and the place
of the setting, with two underscores for each point, in any mixture of cases. Its value is a flag or
a number if it reads as one, and text otherwise.
-/
namespace Abac

abbrev Variables : Type := Dict String

namespace Variables

def settingPrefix : String := "policyline_"

/-- The place whose value is a list, its items separated by commas. -/
def listPlace : String := "engine.policy_files"

def pointed : List Char → List Char
  | '_' :: '_' :: rest => '.' :: pointed rest
  | c :: rest => c :: pointed rest
  | [] => []

def place? (name : String) : Option String :=
  let name := name.toList.map Char.toLower
  if settingPrefix.toList.isPrefixOf name then
    some (String.ofList (pointed (name.drop settingPrefix.length)))
  else none

def integer? (text : List Char) : Option Int :=
  let (negative, digits) := Decimal.splitSign text
  let size : Int := Digits.ofDecimal digits
  let n := if negative then -size else size
  if digits ≠ [] ∧ digits.all Digits.isDecimal ∧ Digits.isWord n then some n else none

/-- The value of a variable, in the most special form that it has. -/
def setting (place value : String) : Setting :=
  let text := value.toList
  match text.map Char.toLower, integer? text, Decimal.readFloat text with
  | ['t', 'r', 'u', 'e'], _, _ => .flag true
  | ['f', 'a', 'l', 's', 'e'], _, _ => .flag false
  | _, some n, _ => .integer n
  | _, none, some x => .decimal x
  | _, none, none =>
    if place = listPlace then .list ((text.splitOn ',').map fun item => .text (String.ofList item))
    else .text value

def settings (vars : Variables) : Dict Setting :=
  .ofList (vars.toList.filterMap fun (name, value) =>
    (place? name).map fun place => (place, setting place value))

end Variables

end Abac
