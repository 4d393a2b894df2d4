import Abac.Digits
import Abac.Unicode.Derived

/-!
Text between double quotes in which every character can be seen: those that are blank other than
the space, that have no glyph of their own or that combine with the character before them are
written as escapes. Letters are seen also where they combine.
-/
namespace Abac.QuotedText

def invisible : CharSet :=
  .unionAll [Unicode.other, Unicode.lineSeparator, Unicode.paragraphSeparator,
    Unicode.spaceSeparator.diff (.singleton ' ')]

def escapedClass : CharSet :=
  .unionAll [invisible, Unicode.defaultIgnorable, Unicode.graphemeExtend.diff Unicode.letter]

def pointEscape (c : Char) : List Char :=
  '\\' :: 'u' :: '\x7b' :: Digits.hexOfNat c.toNat ++ ['\x7d']

def character (c : Char) : List Char :=
  match c with
  | '\x00' => ['\\', '0']
  | '\t' => ['\\', 't']
  | '\r' => ['\\', 'r']
  | '\n' => ['\\', 'n']
  | '\\' => ['\\', '\\']
  | '"' => ['\\', '"']
  | c => if escapedClass.contains c then pointEscape c else [c]

def quote (text : String) : String :=
  String.ofList ('"' :: text.toList.flatMap character ++ ['"'])

end Abac.QuotedText
