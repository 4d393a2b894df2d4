import Abac.Regex.Class

/-!
Whether a text contains a match. A set of places in the text is a list with a flag for each place,
the one before the first character included. A tree takes the places where its matches may start to
the places where they may end; the text contains a match if there is an end for some start.
-/
namespace Abac.Regex

/-- A flag for each place of a text. -/
abbrev Places : Type := List Bool

structure Subject where
  chars : List Char
  surroundings : List (Option Char × Option Char)

def surroundingsFrom (before : Option Char) : List Char → List (Option Char × Option Char)
  | [] => [(before, none)]
  | c :: rest => (before, some c) :: surroundingsFrom (some c) rest

def Subject.ofText (text : String) : Subject :=
  ⟨text.toList, surroundingsFrom none text.toList⟩

def Subject.everywhere (subject : Subject) : Places := subject.surroundings.map fun _ => true

def isWord (unicode : Bool) (c : Option Char) : Bool :=
  c.any (if unicode then Unicode.wordCharacter.contains else asciiWord.contains)

def Look.holds (kind : Look) (before behind : Option Char) : Bool :=
  match kind with
  | .textStart => before.isNone
  | .textEnd => behind.isNone
  | .lineStart false => before.isNone || before = some '\n'
  | .lineEnd false => behind.isNone || behind = some '\n'
  | .lineStart true =>
    before.isNone || before = some '\n' || (before = some '\r' && behind ≠ some '\n')
  | .lineEnd true =>
    behind.isNone || behind = some '\r' || (behind = some '\n' && before ≠ some '\r')
  | .wordBoundary u => isWord u before != isWord u behind
  | .notWordBoundary u => isWord u before == isWord u behind
  | .wordStart u => !isWord u before && isWord u behind
  | .wordEnd u => isWord u before && !isWord u behind
  | .wordStartHalf u => !isWord u before
  | .wordEndHalf u => !isWord u behind

namespace Places

def union (a b : Places) : Places := List.zipWith (· || ·) a b

def isEmpty (places : Places) : Bool := !places.any id

def advance (set : CharSet) (chars : List Char) (places : Places) : Places :=
  false :: List.zipWith (fun c here => here && set.contains c) chars places

def iterate (step : Places → Places) : Nat → Places → Places
  | 0, places => places
  | count + 1, places =>
    if places.isEmpty then places else iterate step count (step places)

def spread (step : Places → Places) : Nat → Places → Places
  | 0, places => places
  | count + 1, places =>
    let more := places.union (step places)
    if more = places then places else spread step count more

end Places

namespace Node

mutual

/-- The places where matches of a tree end that start at the given places. -/
def ends (subject : Subject) (node : Node) (starts : Places) : Places :=
  match node with
  | .empty => starts
  | .flags => starts
  | .one set => starts.advance set subject.chars
  | .bracket set => starts.advance set subject.chars
  | .look kind =>
    List.zipWith (fun here sides => here && kind.holds sides.1 sides.2) starts
      subject.surroundings
  | .repeated inner least most =>
    let first := Places.iterate (fun places => ends subject inner places) least starts
    let further := match most with
      | none => subject.surroundings.length
      | some most => most - least
    Places.spread (fun places => ends subject inner places) further first
  | .group _ inner => ends subject inner starts
  | .sequence parts => endsInTurn subject parts starts
  | .alternatives parts => endsOfAny subject parts starts

def endsInTurn (subject : Subject) (parts : List Node) (starts : Places) : Places :=
  match parts with
  | [] => starts
  | part :: rest => endsInTurn subject rest (ends subject part starts)

def endsOfAny (subject : Subject) (parts : List Node) (starts : Places) : Places :=
  match parts with
  | [] => starts.map fun _ => false
  | part :: rest => (ends subject part starts).union (endsOfAny subject rest starts)

end

def isMatch (node : Node) (text : String) : Bool :=
  let subject := Subject.ofText text
  !(node.ends subject subject.everywhere).isEmpty

end Node

end Abac.Regex
