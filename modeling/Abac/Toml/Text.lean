import Abac.Character
import Abac.Parsing

/-!
Strings and keys of TOML. A string stands between double quotes, and may have escapes, or between
single quotes, and is taken as it stands; between three quotes it may span lines, and keeps their
ends. A key is a bare word or a string on one line, and a dotted key is several of them.
-/
namespace Abac.Toml

def isSpace (c : Char) : Bool := c = ' ' || c = '\t'

def isPlain (c : Char) : Bool := c = '\t' || (0x20 ≤ c.toNat && c.toNat ≠ 0x7F)

def skipSpace (text : List Char) : List Char := text.dropWhile isSpace

theorem length_skipSpace_le (text : List Char) : (skipSpace text).length ≤ text.length :=
  length_dropWhile_le _ _

def lineEnd : (text : List Char) → Option (Parsed (List Char) text)
  | '\n' :: _ => some (.first ['\n'])
  | '\r' :: '\n' :: _ => some (Parsed.first ['\r', '\n']).behind
  | _ => none

def skipLines : List Char → List Char
  | '\n' :: rest => skipLines rest
  | '\r' :: '\n' :: rest => skipLines rest
  | c :: rest => if isSpace c then skipLines rest else c :: rest
  | [] => []

theorem length_skipLines_le (text : List Char) : (skipLines text).length ≤ text.length := by
  fun_induction skipLines text with
  | case1 rest ih => exact Nat.le_succ_of_le ih
  | case2 rest ih => exact Nat.le_succ_of_le (Nat.le_succ_of_le ih)
  | case3 c rest _ _ _ ih => exact Nat.le_succ_of_le ih
  | case4 => exact Nat.le_refl _
  | case5 => exact Nat.le_refl _

def isCodePoint (n : Nat) : Bool := n < 0xD800 || (0xE000 ≤ n && n < 0x110000)

def codePoint (digits : Nat) (text : List Char) : Option (Continued Char text) :=
  let code := text.take digits
  if code.length = digits ∧ code.all Digits.isHex ∧ isCodePoint (Digits.ofHex code) then
    some (.drop digits (Char.ofNat (Digits.ofHex code)))
  else none

def shortEscape? : Char → Option Char
  | '"' => some '"'
  | '\\' => some '\\'
  | 'b' => some '\x08'
  | 'e' => some '\x1b'
  | 'f' => some '\x0c'
  | 'n' => some '\n'
  | 'r' => some '\r'
  | 't' => some '\t'
  | _ => none

def codeDigits? : Char → Option Nat
  | 'x' => some 2
  | 'u' => some 4
  | 'U' => some 8
  | _ => none

def escape : (text : List Char) → Option (Parsed Char text)
  | c :: rest =>
    match codeDigits? c with
    | some digits => (codePoint digits rest).map Continued.behind
    | none => (shortEscape? c).map fun c => .first c
  | [] => none

/-- A way to write strings: the quote, whether a backslash starts an escape, and whether the quote
is tripled and lines may end inside. -/
structure Quoting where
  quote : Char
  escapes : Bool
  multiline : Bool

namespace Quoting

/-- Reads the end of a string. Two quotes more may precede a tripled one and belong to the
string. -/
def closing (q : Quoting) : (text : List Char) → Option (Parsed (List Char) text)
  | [] => none
  | c :: rest =>
    if c ≠ q.quote then none
    else if !q.multiline then some (.first [])
    else
      match rest with
      | a :: b :: more =>
        if a = q.quote ∧ b = q.quote then
          let extra := (more.takeWhile (· = q.quote)).take 2
          some (Continued.drop extra.length extra).behind.behind.behind
        else none
      | _ => none

def lineJoin : (text : List Char) → Option (Parsed (List Char) text)
  | '\\' :: rest =>
    match lineEnd (skipSpace rest) with
    | some ⟨_, more, h⟩ =>
      some (Parsed.behind ⟨[], skipLines more, Nat.lt_of_le_of_lt (length_skipLines_le more)
        (Nat.lt_of_lt_of_le h (length_skipSpace_le rest))⟩)
    | none => none
  | _ => none

def single (q : Quoting) : (text : List Char) → Option (Parsed (List Char) text)
  | c :: rest =>
    if c = '\\' ∧ q.escapes then (escape rest).map fun p => (p.map fun c => [c]).behind
    else if isPlain c then some (.first [c])
    else if q.multiline then lineEnd (c :: rest)
    else none
  | [] => none

def piece (q : Quoting) (text : List Char) : Option (Parsed (List Char) text) :=
  if q.escapes ∧ q.multiline then (lineJoin text).or (q.single text) else q.single text

def body (q : Quoting) (text : List Char) : Option (Parsed (List Char) text) :=
  match q.closing text with
  | some p => some p
  | none =>
    match q.piece text with
    | none => none
    | some ⟨cs, rest, h⟩ => (q.body rest).map fun p => (p.map (cs ++ ·)).after h
termination_by text.length

end Quoting

def lineString : (text : List Char) → Option (Parsed String text)
  | '"' :: rest =>
    (Quoting.body ⟨'"', true, false⟩ rest).map fun p => (p.map String.ofList).behind
  | '\'' :: rest =>
    (Quoting.body ⟨'\'', false, false⟩ rest).map fun p => (p.map String.ofList).behind
  | _ => none

def blockBody (q : Quoting) (text : List Char) : Option (Parsed String text) :=
  match lineEnd text with
  | some ⟨_, rest, h⟩ => (q.body rest).map fun p => (p.map String.ofList).after h
  | none => (q.body text).map fun p => p.map String.ofList

def blockString : (text : List Char) → Option (Parsed String text)
  | '"' :: '"' :: '"' :: rest =>
    (blockBody ⟨'"', true, true⟩ rest).map fun p => p.behind.behind.behind
  | '\'' :: '\'' :: '\'' :: rest =>
    (blockBody ⟨'\'', false, true⟩ rest).map fun p => p.behind.behind.behind
  | _ => none

def string (text : List Char) : Option (Parsed String text) :=
  (blockString text).or (lineString text)

def isBareChar (c : Char) : Bool := isAsciiLetter c || Digits.isDecimal c || c = '_' || c = '-'

def bareKey (text : List Char) : Option (Parsed String text) :=
  (takeRun? isBareChar text).map fun p => p.map String.ofList

def key (text : List Char) : Option (Parsed String text) := (bareKey text).or (lineString text)

def keys (text : List Char) : Option (Parsed (List String) text) :=
  match key text with
  | none => none
  | some ⟨k, rest, h⟩ =>
    match hr : skipSpace rest with
    | '.' :: more =>
      (keys (skipSpace more)).map fun p =>
        (((p.map (k :: ·)).widen (length_skipSpace_le more)).past
          (length_skipSpace_le rest) hr).after h
    | _ => some ⟨[k], rest, h⟩
termination_by text.length
decreasing_by
  exact Nat.lt_of_le_of_lt (length_skipSpace_le more)
    (Nat.lt_trans (length_lt_of_eq_cons (length_skipSpace_le rest) hr) h)

/-- Lists and tables in values nest at most this deep, and so do the tables of a dotted key. -/
def nestingLimit : Nat := 80

def dottedKey (text : List Char) : Option (Parsed (List String) text) :=
  (keys text).filter fun p => p.value.length ≤ nestingLimit

end Abac.Toml
