import Abac.Character
import Abac.Parsing
import Abac.Setting

/-!
Places of settings: a key, and steps into the value under it. In text the steps follow the key as
`.key` or `[position]`. What is written at a place is set over what it held, and whatever blocks
the way to it gives way to a table or a list.
-/
namespace Abac

namespace Setting

/-- A step into a value: to a key of a table, or to a position of a list, which counts from the end
when it is negative. -/
inductive Step where
  | key (name : String)
  | position (n : Int)
deriving Repr, DecidableEq

structure Place where
  root : String
  steps : List Step
deriving Repr, DecidableEq

namespace Place

def isNameChar (c : Char) : Bool := isAsciiLetter c || Digits.isDecimal c || c = '_' || c = '-'

def position? (text : List Char) : Option Int :=
  let isSpace (c : Char) : Bool := c = ' ' || c = '\t'
  let text := ((text.dropWhile isSpace).reverse.dropWhile isSpace).reverse
  let (negative, digits) := match text with
    | '-' :: digits => (true, digits)
    | digits => (false, digits)
  let size : Int := Digits.ofDecimal digits
  if digits ≠ [] ∧ digits.all Digits.isDecimal ∧ size < Digits.wordBound then
    some (if negative then -size else size)
  else none

def step : (text : List Char) → Option (Parsed Step text)
  | '.' :: rest => (takeRun? isNameChar rest).map fun p => (p.map fun k => .key (.ofList k)).behind
  | '[' :: rest =>
    match takeRun (· ≠ ']') rest with
    | ⟨_, [], _⟩ => none
    | ⟨inside, _ :: _, h⟩ =>
      (position? inside).map fun n => ((Parsed.first (.position n)).widen h).behind
  | _ => none

def steps? (text : List Char) : Option (List Step) :=
  match text with
  | [] => some []
  | c :: rest =>
    match step (c :: rest) with
    | none => none
    | some ⟨first, rest', _⟩ => (steps? rest').map (first :: ·)
termination_by text.length
decreasing_by assumption

def ofText? (text : String) : Option Place :=
  (takeRun? isNameChar text.toList).bind fun p =>
    (steps? p.rest).map fun steps => ⟨String.ofList p.value, steps⟩

/-- The place that a key of a source names. A key that names none is one as it stands. -/
def ofKey (key : String) : Place := (ofText? key).getD ⟨key, []⟩

end Place

/-- Changes the item at a position. A list that has no such position first grows, by absent items
at its end, or at its front for a position counted from the end. -/
def modifyItem (change : Setting → Setting) (position : Int) (items : List Setting) :
    List Setting :=
  let size := position.natAbs
  if 0 ≤ position then
    (items ++ List.replicate (size + 1 - items.length) Setting.absent).modify size change
  else
    (List.replicate (size - items.length) Setting.absent ++ items).modify (items.length - size) change

def modifyAt (change : Setting → Setting) : List Step → Setting → Setting
  | [], value => change value
  | .key name :: steps, value =>
    .table (value.fields.insert name
      (modifyAt change steps ((value.fields.get? name).getD .absent)))
  | .position n :: steps, value => .list (modifyItem (modifyAt change steps) n value.items)

def assign (root : Dict Setting) (place : Place) (value : Setting) : Dict Setting :=
  root.insert place.root
    (modifyAt (·.overlay value) place.steps ((root.get? place.root).getD .absent))

def layer (root : Dict Setting) (entries : List (String × Setting)) : Dict Setting :=
  entries.foldl (fun root entry => assign root (.ofKey entry.1) entry.2) root

end Setting

end Abac
