import Abac.Character
import Abac.Parsing

/-!
The tokens of group expressions: parentheses and words. A word is a longest run of name characters,
and three words are connectives.
-/
namespace Abac.GroupExpr

inductive TokenKind where
  | name (word : String)
  | and | or | not
  | opening | closing
deriving DecidableEq, Repr

namespace TokenKind

def text : TokenKind → String
  | name word => word
  | and => "AND"
  | or => "OR"
  | not => "NOT"
  | opening => "("
  | closing => ")"

def ofWord (word : String) : TokenKind :=
  if word = "AND" then .and
  else if word = "OR" then .or
  else if word = "NOT" then .not
  else .name word

end TokenKind

/-- A token, and how many characters of the text stand from its start on. -/
structure Token where
  kind : TokenKind
  left : Nat
deriving DecidableEq, Repr

inductive Fault where
  | unexpectedCharacter (c : Char)
  | unexpected (kind : TokenKind)
  | missingConnective (kind : TokenKind)
  | missingName
  | missingClosing
  | nestedTooDeep
deriving DecidableEq, Repr

namespace Fault

def message : Fault → String
  | unexpectedCharacter c => "意外的字符 '" ++ c.toString ++ "'"
  | unexpected kind => "意外的 '" ++ kind.text ++ "'"
  | missingConnective kind => "意外的 '" ++ kind.text ++ "'，操作数之间缺少 AND / OR"
  | missingName => "缺少策略名"
  | missingClosing => "缺少 ')'"
  | nestedTooDeep => "嵌套层数超过上限"

end Fault

/-- A fault, and how many characters of the text stand from there on. -/
structure Failure where
  fault : Fault
  left : Nat
deriving DecidableEq, Repr

def isNameChar (c : Char) : Bool := isAlphanumeric c || c = '_' || c = '-' || c = '.' || c = ':'

def tokens (text : List Char) : Except Failure (List Token) :=
  match text with
  | [] => .ok []
  | c :: rest =>
    if isBlank c then tokens rest
    else if c = '(' then (tokens rest).map (⟨.opening, text.length⟩ :: ·)
    else if c = ')' then (tokens rest).map (⟨.closing, text.length⟩ :: ·)
    else
      match takeRun? isNameChar (c :: rest) with
      | some ⟨word, rest', _⟩ =>
        (tokens rest').map (⟨.ofWord (String.ofList word), text.length⟩ :: ·)
      | none => .error ⟨.unexpectedCharacter c, text.length⟩
termination_by text.length
decreasing_by
  · exact Nat.lt_succ_self _
  · exact Nat.lt_succ_self _
  · exact Nat.lt_succ_self _
  · assumption

end Abac.GroupExpr
