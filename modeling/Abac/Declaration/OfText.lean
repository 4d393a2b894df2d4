import Abac.Declaration.OfJson
import Abac.Json.Skip

/-!
Declarations from JSON text. The text is read once from front to back and the first fault ends the
reading, be it one of the data or of the text. A field may not be given twice; unknown fields are
passed over.
-/
namespace Abac.Declaration

open Json.Token

inductive TextFault where
  | malformed
  | data (fault : Fault)

abbrev Reader (α : Type) : Type := (text : List Char) → Except TextFault (Parsed α text)

def malformed {α : Type} : Except TextFault α := .error .malformed

def token {α : Type} {text : List Char} (p : Option (Parsed α text)) :
    Except TextFault (Parsed α text) :=
  match p with
  | some p => .ok p
  | none => malformed

/-- The fault of the value that starts here: it is not what was expected, unless it is malformed in
itself. Of arrays and objects only the opening sign is looked at. -/
def wrongTypeHere (expected : Expected) (text : List Char) : TextFault :=
  let found (p : Option Found) : TextFault :=
    match p with
    | some f => .data (.wrongType f expected)
    | none => .malformed
  match text with
  | '[' :: _ => .data (.wrongType .sequence expected)
  | '{' :: _ => .data (.wrongType .map expected)
  | 'n' :: rest => found ((word "ull".toList rest).map fun _ => .null)
  | 't' :: rest => found ((word "rue".toList rest).map fun _ => .bool true)
  | 'f' :: rest => found ((word "alse".toList rest).map fun _ => .bool false)
  | '"' :: rest => found ((quoted ('"' :: rest)).map fun p => .string p.value)
  | other => found ((numeral other).map fun p => .number p.value)

def string (expected : Expected) : Reader String := fun text =>
  match skipSpaces text with
  | '"' :: _ => (token (quoted (skipSpaces text))).map fun p => p.widen (length_skipSpaces_le text)
  | other => .error (wrongTypeHere expected other)

def nullable {α : Type} (reader : Reader α) : Reader (Option α) := fun text =>
  match h : skipSpaces text with
  | 'n' :: rest =>
    (token (word "ull".toList rest)).map fun p =>
      (p.map fun _ => none).past (length_skipSpaces_le text) h
  | _ => (reader (skipSpaces text)).map fun p => (p.map some).widen (length_skipSpaces_le text)

def colon (text : List Char) : Except TextFault (Parsed Unit text) :=
  match h : skipSpaces text with
  | ':' :: _ => .ok (.token (length_skipSpaces_le text) h ())
  | _ => malformed

def moreElements {α : Type} (item : Reader α) (text : List Char) :
    Except TextFault (Parsed (List α) text) :=
  match h : skipSpaces text with
  | ']' :: _ => .ok (.token (length_skipSpaces_le text) h [])
  | ',' :: rest =>
    if (skipSpaces rest).head? = some ']' then malformed
    else
      match item rest with
      | .error e => .error e
      | .ok ⟨v, rest', h'⟩ =>
        (moreElements item rest').map fun p =>
          ((p.map (v :: ·)).after h').past (length_skipSpaces_le text) h
  | _ => malformed
termination_by text.length
decreasing_by exact Nat.lt_trans h' (length_lt_of_eq_cons (length_skipSpaces_le text) h)

def arrayBody {α : Type} (item : Reader α) (text : List Char) :
    Except TextFault (Parsed (List α) text) :=
  match h : skipSpaces text with
  | ']' :: _ => .ok (.token (length_skipSpaces_le text) h [])
  | [] => malformed
  | _ =>
    match item text with
    | .error e => .error e
    | .ok ⟨v, rest, h'⟩ => (moreElements item rest).map fun p => (p.map (v :: ·)).after h'

def rules (mayOpen : Bool) : Reader (List String) := fun text =>
  match h : skipSpaces text with
  | '[' :: rest =>
    if mayOpen then
      (arrayBody (string .string) rest).map fun p => p.past (length_skipSpaces_le text) h
    else malformed
  | other => .error (wrongTypeHere .sequence other)

def effectIn (name : String) : Except TextFault Effect :=
  match effectNamed name with
  | .ok effect => .ok effect
  | .error fault => .error (.data fault)

def unit : Reader Unit := fun text =>
  match h : skipSpaces text with
  | 'n' :: rest =>
    (token (word "ull".toList rest)).map fun p => p.past (length_skipSpaces_le text) h
  | other => .error (wrongTypeHere .unit other)

def effectObject : Reader Effect := fun text => do
  let ⟨name, rest, h⟩ ← string .variant text
  let effect ← effectIn name
  let ⟨_, rest', h'⟩ ← colon rest
  let ⟨_, rest'', h''⟩ ← unit rest'
  match hc : skipSpaces rest'' with
  | '}' :: _ =>
    return (((Parsed.token (length_skipSpaces_le rest'') hc effect).after h'').after h').after h
  | _ => malformed

def effect (mayOpen : Bool) : Reader Effect := fun text =>
  match h : skipSpaces text with
  | '"' :: _ => do
    let p ← token (quoted (skipSpaces text))
    let effect ← effectIn p.value
    return (p.map fun _ => effect).widen (length_skipSpaces_le text)
  | '{' :: rest =>
    if mayOpen then (effectObject rest).map fun p => p.past (length_skipSpaces_le text) h
    else malformed
  | _ => malformed

def member (policy : Reader Declaration) : Reader (String × Declaration) := fun text => do
  let ⟨name, rest, h⟩ ← token (quoted (skipSpaces text))
  let ⟨_, rest', h'⟩ ← colon rest
  let p ← policy rest'
  return (((p.map (name, ·)).after h').after h).widen (length_skipSpaces_le text)

def moreMembers (policy : Reader Declaration) (text : List Char) :
    Except TextFault (Parsed (List (String × Declaration)) text) :=
  match h : skipSpaces text with
  | '}' :: _ => .ok (.token (length_skipSpaces_le text) h [])
  | ',' :: rest =>
    match member policy rest with
    | .error e => .error e
    | .ok ⟨pair, rest', h'⟩ =>
      (moreMembers policy rest').map fun p =>
        ((p.map (pair :: ·)).after h').past (length_skipSpaces_le text) h
  | _ => malformed
termination_by text.length
decreasing_by exact Nat.lt_trans h' (length_lt_of_eq_cons (length_skipSpaces_le text) h)

def membersBody (policy : Reader Declaration) (text : List Char) :
    Except TextFault (Parsed (Entries Declaration none) text) :=
  match h : skipSpaces text with
  | '}' :: _ => .ok (.token (length_skipSpaces_le text) h .nil)
  | _ => do
    let ⟨pair, rest, h'⟩ ← member policy text
    let p ← moreMembers policy rest
    return (p.map fun more => Dict.ofList (pair :: more)).after h'

def members (policy : Option (Reader Declaration)) : Reader (Entries Declaration none) :=
  fun text =>
    match h : skipSpaces text with
    | '{' :: rest =>
      match policy with
      | some policy => (membersBody policy rest).map fun p => p.past (length_skipSpaces_le text) h
      | none => malformed
    | other => .error (wrongTypeHere .map other)

def fieldValue (policy : Option (Reader Declaration)) (draft : Draft) (field : Field) :
    Reader Draft := fun text =>
  match field with
  | .effect =>
    (nullable (effect policy.isSome) text).map fun p => p.map ({ draft with effect := · })
  | .target =>
    (nullable (rules policy.isSome) text).map fun p => p.map ({ draft with target := · })
  | .condition =>
    (nullable (rules policy.isSome) text).map fun p => p.map ({ draft with condition := · })
  | .expression =>
    (nullable (string .string) text).map fun p => p.map ({ draft with expression := · })
  | .policies =>
    (nullable (members policy) text).map fun p => p.map ({ draft with policies := · })

def separator (first : Bool) (text : List Char) : Except TextFault (Continued Unit text) :=
  if first then .ok (.start ())
  else
    match h : skipSpaces text with
    | ',' :: _ => .ok (Parsed.token (length_skipSpaces_le text) h ()).continued
    | _ => malformed

/-- Reads a field into a draft, `seen` being the fields read so far. The value of an unknown field
is passed over. -/
def field (policy : Option (Reader Declaration)) (draft : Draft) (seen : List Field) :
    Reader (Draft × List Field) := fun text => do
  let ⟨key, rest, h⟩ ← token (quoted (skipSpaces text))
  match Field.ofName? key with
  | some field =>
    if seen.contains field then .error (.data (.duplicateField field))
    else
      let ⟨_, rest', h'⟩ ← colon rest
      let p ← fieldValue policy draft field rest'
      return (((p.map (·, field :: seen)).after h').after h).widen (length_skipSpaces_le text)
  | none =>
    let ⟨_, rest', h'⟩ ← colon rest
    match skipValue rest' with
    | some p =>
      return (((p.map fun _ => (draft, seen)).after h').after h).widen (length_skipSpaces_le text)
    | none => malformed

/-- Reads the fields of an object, `seen` being those read so far. At the start a key or the end may
stand, behind a field a comma and a key or the end. -/
def fields (policy : Option (Reader Declaration)) (draft : Draft) (seen : List Field)
    (first : Bool) (text : List Char) : Except TextFault (Parsed Draft text) :=
  match h : skipSpaces text with
  | '}' :: _ => .ok (.token (length_skipSpaces_le text) h draft)
  | _ =>
    match separator first text with
    | .error e => .error e
    | .ok ⟨_, rest, hs⟩ =>
      match field policy draft seen rest with
      | .error e => .error e
      | .ok ⟨(draft, seen), rest', h'⟩ =>
        (fields policy draft seen false rest').map fun p => (p.after h').widen hs
termination_by text.length
decreasing_by exact Nat.lt_of_lt_of_le h' hs

/-- Reads the comma before an element other than the first; the end may not follow it. -/
def elementSeparator (first : Bool) (text : List Char) : Except TextFault (Continued Unit text) :=
  match separator first text with
  | .error e => .error e
  | .ok p => if !first && (skipSpaces p.rest).head? = some ']' then malformed else .ok p

def positional (policy : Option (Reader Declaration)) (draft : Draft) (first : Bool) :
    List Field → (text : List Char) → Except TextFault (Parsed Draft text)
  | [], text =>
    match h : skipSpaces text with
    | ']' :: _ => .ok (.token (length_skipSpaces_le text) h draft)
    | _ => malformed
  | field :: fields, text =>
    match h : skipSpaces text with
    | ']' :: _ => .ok (.token (length_skipSpaces_le text) h draft)
    | _ => do
      let ⟨_, rest, hs⟩ ← elementSeparator first text
      let ⟨draft, rest', h'⟩ ← fieldValue policy draft field rest
      let p ← positional policy draft false fields rest'
      return (p.after h').widen hs

def declarationHere (policy : Option (Reader Declaration)) : (text : List Char) →
    Except TextFault (Parsed Draft text)
  | '{' :: rest => (fields policy {} [] true rest).map Parsed.behind
  | '[' :: rest => (positional policy {} true Field.all rest).map Parsed.behind
  | other => .error (wrongTypeHere .declaration other)

def finishRead {text : List Char} (p : Parsed Draft text) :
    Except TextFault (Parsed Declaration text) :=
  match p.value.finish with
  | .ok declaration => .ok (p.map fun _ => declaration)
  | .error fault => .error (.data fault)

/-- Reads a declaration in which arrays and objects nest at most `levels` deep. A member of a group
stands two levels below the group. -/
def declaration : (levels : Nat) → Reader Declaration
  | 0, text =>
    match skipSpaces text with
    | '{' :: _ | '[' :: _ => malformed
    | other => .error (wrongTypeHere .declaration other)
  | 1, text => do
    let p ← finishRead (← declarationHere none (skipSpaces text))
    return p.widen (length_skipSpaces_le text)
  | levels + 2, text => do
    let p ← finishRead (← declarationHere (some (declaration levels)) (skipSpaces text))
    return p.widen (length_skipSpaces_le text)

def ofText (text : String) : Except TextFault Declaration := do
  let p ← declaration Json.nestingLimit text.toList
  if skipSpaces p.rest = [] then return p.value else malformed

end Abac.Declaration
