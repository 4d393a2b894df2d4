import Abac.Toml.Draft
import Abac.Toml.Number
import Abac.Toml.Text
import Abac.Toml.Time

/-!
Reading TOML. A document is a table, written as lines that hold headers of tables or dotted keys
with their values. `Toml.parse?` reads a whole text. Lists and tables in values nest at most
`nestingLimit` deep.
-/
namespace Abac.Toml

def skipFillerFrom (inComment : Bool) : List Char → List Char
  | '\n' :: rest => skipFillerFrom false rest
  | '\r' :: '\n' :: rest => skipFillerFrom false rest
  | c :: rest =>
    if inComment then (if isPlain c then skipFillerFrom true rest else c :: rest)
    else if c = '#' then skipFillerFrom true rest
    else if isSpace c then skipFillerFrom false rest
    else c :: rest
  | [] => []

def skipFiller (text : List Char) : List Char := skipFillerFrom false text

theorem length_skipFillerFrom_le (inComment : Bool) (text : List Char) :
    (skipFillerFrom inComment text).length ≤ text.length := by
  fun_induction skipFillerFrom inComment text
  all_goals
    first
      | exact Nat.le_refl _
      | simp only [List.length_cons]
        omega

theorem length_skipFiller_le (text : List Char) : (skipFiller text).length ≤ text.length :=
  length_skipFillerFrom_le false text

/-- Whether a line may end here: nothing but blanks and a comment stand before its end. -/
def endsLine (text : List Char) : Bool :=
  let behind := match skipSpace text with
    | '#' :: rest => rest.dropWhile isPlain
    | rest => rest
  behind = [] || (lineEnd behind).isSome

abbrev Reader : Type := (text : List Char) → Option (Parsed Setting text)

def entry (item : Reader) (text : List Char) : Option (Parsed (List String × Setting) text) :=
  match dottedKey text with
  | none => none
  | some ⟨path, rest, h⟩ =>
    match hr : skipSpace rest with
    | '=' :: more =>
      (item (skipSpace more)).map fun p =>
        (((p.map (path, ·)).widen (length_skipSpace_le more)).past
          (length_skipSpace_le rest) hr).after h
    | _ => none

def items {α : Type} (item : (text : List Char) → Option (Parsed α text)) (close : Char)
    (text : List Char) : Option (Parsed (List α) text) :=
  match hc : skipFiller text with
  | [] => none
  | c :: _ =>
    if c = close then some (.token (length_skipFiller_le text) hc [])
    else
      match item (skipFiller text) with
      | none => none
      | some ⟨v, rest, h⟩ =>
        match hr : skipFiller rest with
        | [] => none
        | d :: more =>
          if d = close then
            some (((Parsed.token (length_skipFiller_le rest) hr [v]).after h).widen
              (length_skipFiller_le text))
          else if d = ',' then
            (items item close more).map fun p =>
              (((p.map (v :: ·)).past (length_skipFiller_le rest) hr).after h).widen
                (length_skipFiller_le text)
          else none
termination_by text.length
decreasing_by
  exact Nat.lt_trans (length_lt_of_eq_cons (length_skipFiller_le rest) hr)
    (Nat.lt_of_lt_of_le h (length_skipFiller_le text))

def listBody (item : Reader) (text : List Char) : Option (Parsed Setting text) :=
  (items item ']' text).map fun p => p.map .list

def tableBody (item : Reader) (text : List Char) : Option (Parsed Setting text) :=
  (items (entry item) '}' text).bind fun p =>
    (ofEntries? p.value).map fun fields => p.map fun _ => .table fields

def isWordChar (c : Char) : Bool := isBareChar c || c = '+' || c = '.' || c = ':'

def word? (text : List Char) : Option Setting :=
  if text = "true".toList then some (.flag true)
  else if text = "false".toList then some (.flag false)
  else (number? text).or ((moment? text).map .text)

def word (text : List Char) : Option (Parsed Setting text) :=
  (takeRun? isWordChar text).bind fun p => (word? p.value).map fun v => p.map fun _ => v

def spacedMoment (text : List Char) : Option (Parsed Setting text) :=
  match takeRun? isWordChar text with
  | some ⟨day, ' ' :: more, h⟩ =>
    (takeRun? isWordChar more).bind fun p =>
      (moment? (day ++ 'T' :: p.value)).map fun moment =>
        (p.map fun _ => .text moment).behind.after h
  | _ => none

def valueHere (item : Option Reader) : (text : List Char) → Option (Parsed Setting text)
  | '[' :: rest => item.bind fun item => (listBody item rest).map Parsed.behind
  | '{' :: rest => item.bind fun item => (tableBody item rest).map Parsed.behind
  | text => ((string text).map fun p => p.map .text).or ((spacedMoment text).or (word text))

def value : (levels : Nat) → Reader
  | 0 => valueHere none
  | levels + 1 => valueHere (some (value levels))

def closeHeader (path : List String) (text : List Char) : Option (Parsed (List String) text) :=
  match h : skipSpace text with
  | ']' :: _ => some (.token (length_skipSpace_le text) h path)
  | _ => none

def headerKeys (text : List Char) : Option (Parsed (List String) text) :=
  match dottedKey (skipSpace text) with
  | none => none
  | some ⟨path, rest, h⟩ =>
    (closeHeader path rest).map fun p => (p.after h).widen (length_skipSpace_le text)

def seriesKeys (text : List Char) : Option (Parsed (List String) text) :=
  match headerKeys text with
  | some ⟨path, ']' :: _, h⟩ => some ((Parsed.first path).after h)
  | _ => none

def line : (text : List Char) → Option (Parsed Line text)
  | '[' :: '[' :: rest => (seriesKeys rest).map fun p => (p.map .seriesHeader).behind.behind
  | '[' :: rest => (headerKeys rest).map fun p => (p.map .header).behind
  | text => (entry (value nestingLimit) text).map fun p => p.map fun (path, v) => .entry path v

def lines (text : List Char) : Option (List Line) :=
  match skipFiller text with
  | [] => some []
  | _ :: _ =>
    match line (skipFiller text) with
    | none => none
    | some ⟨l, rest, _⟩ => if endsLine rest then (lines rest).map (l :: ·) else none
termination_by text.length
decreasing_by exact Nat.lt_of_lt_of_le ‹_› (length_skipFiller_le text)

def parse? (text : String) : Option (Dict Setting) :=
  (lines (dropMark text.toList)).bind Line.build?

end Abac.Toml
