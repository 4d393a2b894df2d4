import Abac.Pattern
import Abac.Regex.Matching
import Abac.Regex.Parser

/-!
Patterns as regular expressions. The flags `i`, `m`, `s` and `x` of a pattern stand in front of its
source as a list of flags, and its other flags mean nothing.
-/
namespace Abac

structure Regex where
  node : Regex.Node

def Regex.isMatch (regex : Regex) (text : String) : Bool := regex.node.isMatch text

namespace Pattern

def inlineFlags (pattern : Pattern) : String :=
  String.ofList (pattern.flags.toList.filter ['i', 'm', 's', 'x'].contains)

def expression (pattern : Pattern) : String :=
  if pattern.inlineFlags.isEmpty then pattern.source
  else "(?" ++ pattern.inlineFlags ++ ")" ++ pattern.source

def compile? (pattern : Pattern) : Option Regex :=
  (Regex.parse? pattern.expression).map fun node => ⟨node⟩

end Pattern

end Abac
