import Abac.Unicode.Derived

/-!
The classes of characters that rules and group expressions are made of, blanks and the characters
of names, and the mark that may introduce a text.
-/
namespace Abac

def isBlank (c : Char) : Bool :=
  let n := c.toNat
  (0x9 ≤ n && n ≤ 0xD) || n = 0x20 || n = 0x85 || n = 0xA0 || n = 0x1680 ||
    (0x2000 ≤ n && n ≤ 0x200A) || n = 0x2028 || n = 0x2029 || n = 0x202F || n = 0x205F || n = 0x3000

def isAsciiLetter (c : Char) : Bool := ('a' ≤ c && c ≤ 'z') || ('A' ≤ c && c ≤ 'Z')

def isAlphanumeric (c : Char) : Bool :=
  if c.toNat < 0x80 then isAsciiLetter c || Digits.isDecimal c else Unicode.alphanumeric.contains c

def skipBlank (text : List Char) : List Char := text.dropWhile isBlank

def dropMark : List Char → List Char
  | '\uFEFF' :: rest => rest
  | text => text

end Abac
