import Abac.CharSet

/-!
Regular expressions as trees: sets of characters, assertions about a place in the text, sequences,
alternatives, repetitions and groups.
-/
namespace Abac.Regex

inductive Look where
  | textStart | textEnd
  | lineStart (crlf : Bool) | lineEnd (crlf : Bool)
  | wordBoundary (unicode : Bool) | notWordBoundary (unicode : Bool)
  | wordStart (unicode : Bool) | wordEnd (unicode : Bool)
  | wordStartHalf (unicode : Bool) | wordEndHalf (unicode : Bool)
deriving DecidableEq, Repr

inductive Grouping where
  | plain
  | numbered
  | named (name : String)
deriving DecidableEq, Repr

def Grouping.name? : Grouping → Option String
  | named name => some name
  | _ => none

inductive Node where
  | empty
  /-- A change of flags; it matches the empty text and cannot be repeated. -/
  | flags
  | one (set : CharSet)
  /-- A set that was written between brackets. -/
  | bracket (set : CharSet)
  | look (look : Look)
  | repeated (inner : Node) (least : Nat) (most : Option Nat)
  | group (grouping : Grouping) (inner : Node)
  | sequence (parts : List Node)
  | alternatives (parts : List Node)

namespace Node

instance : Inhabited Node := ⟨.empty⟩

def ofSequence : List Node → Node
  | [] => .empty
  | [part] => part
  | parts => .sequence parts

def ofAlternatives : List Node → Node
  | [] => .empty
  | [part] => part
  | parts => .alternatives parts

mutual

def depth : Node → Nat
  | .empty | .flags | .one _ | .look _ => 0
  | .bracket _ => 1
  | .repeated inner _ _ => inner.depth + 1
  | .group _ inner => inner.depth + 1
  | .sequence parts => depthAll parts + 1
  | .alternatives parts => depthAll parts + 1

def depthAll : List Node → Nat
  | [] => 0
  | part :: rest => max part.depth (depthAll rest)

end

mutual

def groupNames : Node → List String
  | .empty | .flags | .one _ | .look _ | .bracket _ => []
  | .repeated inner _ _ => inner.groupNames
  | .group grouping inner => grouping.name?.toList ++ inner.groupNames
  | .sequence parts => groupNamesAll parts
  | .alternatives parts => groupNamesAll parts

def groupNamesAll : List Node → List String
  | [] => []
  | part :: rest => part.groupNames ++ groupNamesAll rest

end

end Node

end Abac.Regex
