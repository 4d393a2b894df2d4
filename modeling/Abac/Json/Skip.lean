import Abac.Json.Reader

/-!
Passing over JSON values without reading them. Such a value may nest to any depth, its numbers may
be of any size and its escapes may name any surrogate.
-/
namespace Abac.Json.Token

def skipString : (text : List Char) → Option (Parsed Unit text)
  | [] => none
  | '"' :: _ => some (.first ())
  | '\\' :: 'u' :: a :: b :: c :: d :: rest =>
    if [a, b, c, d].all Digits.isHex then
      (skipString rest).map fun p => p.behind.behind.behind.behind.behind.behind
    else none
  | '\\' :: c :: rest =>
    if (shortEscape? c).isSome then (skipString rest).map fun p => p.behind.behind else none
  | c :: rest => if c = '\\' ∨ c.toNat < 0x20 then none else (skipString rest).map Parsed.behind

def skipScalar : (text : List Char) → Option (Parsed Unit text)
  | 'n' :: rest => (word "ull".toList rest).map Parsed.behind
  | 't' :: rest => (word "rue".toList rest).map Parsed.behind
  | 'f' :: rest => (word "alse".toList rest).map Parsed.behind
  | '"' :: rest => (skipString rest).map Parsed.behind
  | text => (numberParts text).map fun p => p.map fun _ => ()

def skipKey (text : List Char) : Option (Parsed Unit text) :=
  match hq : skipSpaces text with
  | '"' :: rest =>
    match skipString rest with
    | none => none
    | some ⟨_, rest', h⟩ =>
      match hc : skipSpaces rest' with
      | ':' :: _ =>
        some (((Parsed.token (length_skipSpaces_le rest') hc ()).after h).past
          (length_skipSpaces_le text) hq)
      | _ => none
  | _ => none

inductive Frame where
  | array | object
deriving DecidableEq

inductive Expectation where
  | value | afterValue

/-- Passes over a value, or over the rest of one, and over all that the open `frames` still need. -/
def skipOpen (expectation : Expectation) (frames : List Frame) (text : List Char) :
    Option (Continued Unit text) :=
  match expectation, frames with
  | .afterValue, [] => some (.start ())
  | .afterValue, frame :: outer =>
    match h : skipSpaces text, frame with
    | ',' :: rest, .array =>
      (skipOpen .value (frame :: outer) rest).map fun p =>
        (p.past (length_skipSpaces_le text) h).continued
    | ',' :: rest, .object =>
      match skipKey rest with
      | none => none
      | some ⟨_, rest', h'⟩ =>
        (skipOpen .value (frame :: outer) rest').map fun p =>
          ((p.after h').past (length_skipSpaces_le text) h).continued
    | ']' :: rest, .array =>
      (skipOpen .afterValue outer rest).map fun p =>
        (p.past (length_skipSpaces_le text) h).continued
    | '}' :: rest, .object =>
      (skipOpen .afterValue outer rest).map fun p =>
        (p.past (length_skipSpaces_le text) h).continued
    | _, _ => none
  | .value, frames =>
    match h : skipSpaces text with
    | '[' :: rest =>
      match h' : skipSpaces rest with
      | ']' :: more =>
        (skipOpen .afterValue frames more).map fun p =>
          ((p.past (length_skipSpaces_le rest) h').past (length_skipSpaces_le text) h).continued
      | _ =>
        (skipOpen .value (.array :: frames) rest).map fun p =>
          (p.past (length_skipSpaces_le text) h).continued
    | '{' :: rest =>
      match h' : skipSpaces rest with
      | '}' :: more =>
        (skipOpen .afterValue frames more).map fun p =>
          ((p.past (length_skipSpaces_le rest) h').past (length_skipSpaces_le text) h).continued
      | _ =>
        match skipKey rest with
        | none => none
        | some ⟨_, rest', h''⟩ =>
          (skipOpen .value (.object :: frames) rest').map fun p =>
            ((p.after h'').past (length_skipSpaces_le text) h).continued
    | _ =>
      match skipScalar (skipSpaces text) with
      | none => none
      | some ⟨_, rest, h'⟩ =>
        (skipOpen .afterValue frames rest).map fun p =>
          ((p.after h').widen (length_skipSpaces_le text)).continued
termination_by text.length
decreasing_by
  all_goals
    have := length_skipSpaces_le text
    try have := length_lt_of_eq_cons (length_skipSpaces_le text) h
    try have := length_lt_of_eq_cons (length_skipSpaces_le rest) h'
    omega

def skipValue (text : List Char) : Option (Continued Unit text) := skipOpen .value [] text

end Abac.Json.Token
