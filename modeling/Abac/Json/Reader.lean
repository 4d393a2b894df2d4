import Abac.Json.Number
import Abac.Parsing

/-!
Reading JSON text. The grammar is the strict one: no comments, no trailing commas, no control
characters in strings, and escapes of surrogates only in pairs. Arrays and objects nest at most
`nestingLimit` deep, and a number that no binary number can hold is refused. `Json.parse?` reads a
whole text; the tokens have readers of their own.
-/
namespace Abac.Json

def nestingLimit : Nat := 127

namespace Token

def isSpace (c : Char) : Bool := c = ' ' || c = '\n' || c = '\t' || c = '\r'

def skipSpaces (text : List Char) : List Char := text.dropWhile isSpace

theorem length_skipSpaces_le (text : List Char) : (skipSpaces text).length ≤ text.length :=
  length_dropWhile_le _ _

def hex4? (a b c d : Char) : Option Nat := do
  let a ← Digits.hex? a
  let b ← Digits.hex? b
  let c ← Digits.hex? c
  let d ← Digits.hex? d
  return ((a * 16 + b) * 16 + c) * 16 + d

def isHighSurrogate (n : Nat) : Bool := 0xD800 ≤ n && n < 0xDC00

def isLowSurrogate (n : Nat) : Bool := 0xDC00 ≤ n && n < 0xE000

def shortEscape? : Char → Option Char
  | '"' => some '"'
  | '\\' => some '\\'
  | '/' => some '/'
  | 'b' => some '\x08'
  | 'f' => some '\x0c'
  | 'n' => some '\n'
  | 'r' => some '\r'
  | 't' => some '\t'
  | _ => none

def escapedCode : (text : List Char) → Option (Parsed Nat text)
  | '\\' :: 'u' :: a :: b :: c :: d :: _ =>
    (hex4? a b c d).map fun n => (Parsed.first n).behind.behind.behind.behind.behind
  | _ => none

def joinSurrogates (high low : Nat) : Nat :=
  0x10000 + (high - 0xD800) * 0x400 + (low - 0xDC00)

def codedCharacter (text : List Char) : Option (Parsed Char text) :=
  match escapedCode text with
  | none => none
  | some ⟨high, rest, h⟩ =>
    if isHighSurrogate high then
      (escapedCode rest).bind fun p =>
        if isLowSurrogate p.value then
          some ((p.map fun low => Char.ofNat (joinSurrogates high low)).after h)
        else none
    else if isLowSurrogate high then none
    else some ⟨Char.ofNat high, rest, h⟩

def character : (text : List Char) → Option (Parsed Char text)
  | '\\' :: 'u' :: rest => codedCharacter ('\\' :: 'u' :: rest)
  | '\\' :: c :: _ => (shortEscape? c).map fun c => (Parsed.first c).behind
  | c :: _ => if c = '\\' ∨ c.toNat < 0x20 then none else some (.first c)
  | [] => none

def stringBody (text : List Char) : Option (Parsed (List Char) text) :=
  match text with
  | '"' :: _ => some (.first [])
  | other =>
    match character other with
    | none => none
    | some ⟨c, rest, h⟩ => (stringBody rest).map fun p => (p.map (c :: ·)).after h
termination_by text.length

def quoted : (text : List Char) → Option (Parsed String text)
  | '"' :: rest => (stringBody rest).map fun p => (p.map String.ofList).behind
  | _ => none

def word : (expected text : List Char) → Option (Parsed Unit text)
  | [], _ => none
  | [e], c :: _ => if e = c then some (.first ()) else none
  | e :: es, c :: rest => if e = c then (word es rest).map Parsed.behind else none
  | _ :: _, [] => none

def wholeDigits : (text : List Char) → Option (Parsed (List Char) text)
  | '0' :: rest => if rest.head?.any Digits.isDecimal then none else some (.first ['0'])
  | text => takeRun? Digits.isDecimal text

def someDigits (text : List Char) : Option (Parsed (List Char) text) :=
  takeRun? Digits.isDecimal text

def fractionDigits : (text : List Char) → Option (Continued (Option (List Char)) text)
  | '.' :: rest => (someDigits rest).map fun p => (p.map some).behind.continued
  | _ => some (.start none)

def signedDigits : (text : List Char) → Option (Parsed (Bool × List Char) text)
  | '-' :: rest => (someDigits rest).map fun p => (p.map (true, ·)).behind
  | '+' :: rest => (someDigits rest).map fun p => (p.map (false, ·)).behind
  | text => (someDigits text).map fun p => p.map (false, ·)

def powerDigits : (text : List Char) → Option (Continued (Option (Bool × List Char)) text)
  | 'e' :: rest => (signedDigits rest).map fun p => (p.map some).behind.continued
  | 'E' :: rest => (signedDigits rest).map fun p => (p.map some).behind.continued
  | _ => some (.start none)

def unsignedParts (negative : Bool) (text : List Char) : Option (Parsed NumberParts text) := do
  let ⟨whole, rest, h⟩ ← wholeDigits text
  let ⟨fraction, rest', h'⟩ ← fractionDigits rest
  let power ← powerDigits rest'
  return ((power.map fun power => ⟨negative, whole, fraction, power⟩).widen h').after h

def numberParts : (text : List Char) → Option (Parsed NumberParts text)
  | '-' :: rest => (unsignedParts true rest).map Parsed.behind
  | text => unsignedParts false text

def numeral (text : List Char) : Option (Parsed Number text) :=
  (numberParts text).bind fun p => p.value.number?.map fun n => p.map fun _ => n

end Token

/-- A reader of one kind of value: it skips blanks, and answers `none` when the text is no such
value. -/
abbrev Reader (α : Type) : Type := (text : List Char) → Option (Parsed α text)

open Token

def elements (item : Reader Json) (text : List Char) : Option (Parsed (List Json) text) :=
  match item text with
  | none => none
  | some ⟨v, rest, h⟩ =>
    match hr : skipSpaces rest with
    | ',' :: more =>
      (elements item more).map fun p =>
        ((p.map (v :: ·)).past (length_skipSpaces_le rest) hr).after h
    | ']' :: _ => some ((Parsed.token (length_skipSpaces_le rest) hr [v]).after h)
    | _ => none
termination_by text.length
decreasing_by exact Nat.lt_trans (length_lt_of_eq_cons (length_skipSpaces_le rest) hr) h

def member (item : Reader Json) (text : List Char) : Option (Parsed (String × Json) text) := do
  let ⟨key, rest, h⟩ ← quoted (skipSpaces text)
  match hr : skipSpaces rest with
  | ':' :: more =>
    (item more).map fun p =>
      (((p.map (key, ·)).past (length_skipSpaces_le rest) hr).after h).widen
        (length_skipSpaces_le text)
  | _ => none

def members (item : Reader Json) (text : List Char) : Option (Parsed (List (String × Json)) text) :=
  match member item text with
  | none => none
  | some ⟨v, rest, h⟩ =>
    match hr : skipSpaces rest with
    | ',' :: more =>
      (members item more).map fun p =>
        ((p.map (v :: ·)).past (length_skipSpaces_le rest) hr).after h
    | '}' :: _ => some ((Parsed.token (length_skipSpaces_le rest) hr [v]).after h)
    | _ => none
termination_by text.length
decreasing_by exact Nat.lt_trans (length_lt_of_eq_cons (length_skipSpaces_le rest) hr) h

def arrayBody (item : Reader Json) (text : List Char) : Option (Parsed Json text) :=
  match hr : skipSpaces text with
  | ']' :: _ => some (.token (length_skipSpaces_le text) hr (.array []))
  | _ => (elements item text).map fun p => p.map .array

def objectBody (item : Reader Json) (text : List Char) : Option (Parsed Json text) :=
  match hr : skipSpaces text with
  | '}' :: _ => some (.token (length_skipSpaces_le text) hr (.object .nil))
  | _ => (members item text).map fun p => p.map ofPairs

def valueHere (item : Option (Reader Json)) : (text : List Char) → Option (Parsed Json text)
  | 'n' :: rest => (word "ull".toList rest).map fun p => (p.map fun _ => .null).behind
  | 't' :: rest => (word "rue".toList rest).map fun p => (p.map fun _ => .bool true).behind
  | 'f' :: rest => (word "alse".toList rest).map fun p => (p.map fun _ => .bool false).behind
  | '"' :: rest => (quoted ('"' :: rest)).map fun p => p.map .string
  | '[' :: rest => item.bind fun item => (arrayBody item rest).map Parsed.behind
  | '{' :: rest => item.bind fun item => (objectBody item rest).map Parsed.behind
  | text => (numeral text).map fun p => p.map .number

/-- Reads a value in which arrays and objects nest at most `levels` deep. -/
def value : (levels : Nat) → Reader Json
  | 0, text => (valueHere none (skipSpaces text)).map fun p => p.widen (length_skipSpaces_le text)
  | levels + 1, text =>
    (valueHere (some (value levels)) (skipSpaces text)).map fun p =>
      p.widen (length_skipSpaces_le text)

def parse? (text : String) : Option Json :=
  match value nestingLimit text.toList with
  | some p => if skipSpaces p.rest = [] then some p.value else none
  | none => none

end Abac.Json
