import Abac.Decimal.Notation
import Abac.Dict

/-!
Configured values, as they stand in a source before anything is known about the settings they are
meant for. Values are set over one another: tables join key by key, and every other value replaces
what was there. A value that is no text can be taken as one, and several words stand for yes or no.
-/
namespace Abac

/-- A configured value. A position of a list that nothing was written to is absent. -/
inductive Setting where
  | absent
  | flag (b : Bool)
  | integer (n : Int)
  | decimal (x : Float)
  | text (s : String)
  | list (items : List Setting)
  | table (fields : Entries Setting none)

namespace Setting

instance : Inhabited Setting := ⟨.absent⟩

/-- The fields of a table; any other value counts as an empty one. -/
def fields : Setting → Dict Setting
  | .table fields => fields
  | _ => ∅

def items : Setting → List Setting
  | .list items => items
  | _ => []

mutual

/-- What is in force after a value was set over `current`. -/
def overlay (current : Setting) : Setting → Setting
  | .table incoming => .table (overlayFields current.fields incoming)
  | value => value

def overlayFields (current : Dict Setting) : {low : Option String} → Entries Setting low →
    Dict Setting
  | _, .nil => current
  | _, .cons key _ value rest =>
    overlayFields (current.insert key (overlay ((current.get? key).getD .absent) value)) rest

end

def text? : Setting → Option String
  | .text s => some s
  | .flag b => some (if b then "true" else "false")
  | .integer n => some (Digits.textOfInt n)
  | .decimal x => some (Decimal.plainText x)
  | _ => none

def flagOfWord? (word : String) : Option Bool :=
  let word := String.ofList (word.toList.map Char.toLower)
  if word ∈ ["true", "yes", "on", "1"] then some true
  else if word ∈ ["false", "no", "off", "0"] then some false
  else none

/-- A value taken as an answer to a question: a number says yes unless it is zero. -/
def flag? : Setting → Option Bool
  | .flag b => some b
  | .integer n => some (n ≠ 0)
  | .decimal x => some (x != 0.0)
  | .text s => flagOfWord? s
  | _ => none

def texts? : Setting → Option (List String)
  | .list items => items.mapM text?
  | _ => none

abbrev Group : Type := String → Option Setting

/-- A value taken as a group: a table has its members under their names, and a list has them in the
order of `names`. -/
def group? (names : List String) : Setting → Option Group
  | .table fields => some fun name => fields.get? name
  | .list items => some fun name => (names.zip items).lookup name
  | _ => none

end Setting

end Abac
