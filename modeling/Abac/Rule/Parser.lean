import Abac.Character
import Abac.Parsing
import Abac.PolicyError
import Abac.Rule

/-!
Reading rules. A rule is a path, a comparator and an expression. Expressions have the two usual
levels of operators, both grouping to the left, over strings, numbers, the three words, paths,
patterns, arrays, objects and parentheses, which nest at most `nestingLimit` deep. A reader either
takes something from the front of the text or fails at a place in it, told by the number of
characters from there on.
-/
namespace Abac.Rule

abbrev Reader (α : Type) : Type := (text : List Char) → Except Failure (Parsed α text)

def failAt {α : Type} (text : List Char) (fault : Fault) : Except Failure α :=
  .error ⟨fault, text.length⟩

def nestingLimit : Nat := 128

theorem length_skipBlank_le (text : List Char) : (skipBlank text).length ≤ text.length :=
  length_dropWhile_le _ _

def isNameChar (c : Char) : Bool := isAlphanumeric c || c = '_' || c = '$'

def isQuote (c : Char) : Bool := c = '\'' || c = '"'

/-! ## Strings, patterns and numbers -/

def unescape (c : Char) : Char :=
  match c with
  | 'n' => '\n'
  | 't' => '\t'
  | 'r' => '\r'
  | c => c

def stringBody (quote : Char) : (text : List Char) → Option (Parsed (List Char) text)
  | [] => none
  | [c] => if c = quote then some (.first []) else none
  | c :: d :: rest =>
    if c = quote then some (.first [])
    else if c = '\\' then
      (stringBody quote rest).map fun p => (p.map (unescape d :: ·)).behind.behind
    else (stringBody quote (d :: rest)).map fun p => (p.map (c :: ·)).behind

def quoted (quote : Char) : Reader String
  | [] => failAt [] .unclosedString
  | c :: rest =>
    match stringBody quote rest with
    | some p => .ok (p.map String.ofList).behind
    | none => failAt (c :: rest) .unclosedString

/-- Reads a pattern from behind its slash; `none` if it is not closed. A slash inside brackets or
behind a backslash does not close it. -/
def patternBody : (inClass : Bool) → (text : List Char) → Option (Parsed (List Char) text)
  | _, [] => none
  | inClass, [c] => if c = '/' && !inClass then some (.first []) else none
  | inClass, c :: d :: rest =>
    if c = '\\' then
      (patternBody inClass rest).map fun p => (p.map (c :: d :: ·)).behind.behind
    else if c = '/' && !inClass then some (.first [])
    else
      (patternBody (c = '[' || (inClass && c ≠ ']')) (d :: rest)).map fun p =>
        (p.map (c :: ·)).behind

def pattern : Reader Pattern
  | [] => failAt [] .unclosedPattern
  | slash :: rest =>
    match patternBody false rest with
    | none => failAt (slash :: rest) .unclosedPattern
    | some ⟨source, rest', h⟩ =>
      if source = [] then failAt (slash :: rest) .emptyPattern
      else
        let flags := takeRun isAsciiLetter rest'
        .ok ((flags.map fun flags => ⟨String.ofList source, String.ofList flags⟩).after h).behind

def splitOptional (cs : List Char) : List Char → List Char × List Char
  | [] => ([], [])
  | c :: rest => if cs.contains c then ([c], rest) else ([], c :: rest)

/-- The text of the number that starts here: a minus, digits, a point and digits, and a power of
ten, each of which may be absent. -/
def numberText (text : List Char) : List Char :=
  let (sign, rest) := splitOptional ['-'] text
  let whole := rest.takeWhile Digits.isDecimal
  let (point, rest) := splitOptional ['.'] (rest.dropWhile Digits.isDecimal)
  let fraction := if point = [] then [] else rest.takeWhile Digits.isDecimal
  let (mark, rest) := splitOptional ['e', 'E'] (rest.drop fraction.length)
  let (powerSign, rest) := if mark = [] then ([], []) else splitOptional ['+', '-'] rest
  sign ++ whole ++ point ++ fraction ++ mark ++ powerSign ++ rest.takeWhile Digits.isDecimal

def takeFront {α : Type} (count : Nat) (value : α) : (text : List Char) → Option (Parsed α text)
  | [] => none
  | _ :: _ =>
    match count with
    | 0 => none
    | count + 1 => some (Continued.drop count value).behind

def number (text : List Char) : Except Failure (Parsed Float text) :=
  let token := numberText text
  match (Decimal.readNumeral token).bind fun numeral =>
      takeFront token.length numeral.toFloat text with
  | some p => .ok p
  | none => failAt text (.invalidNumber (String.ofList token))

/-! ## Paths -/

/-- A part of a path: its name, whether it stands between quotes, and the number of characters from
its start on. -/
structure Segment where
  name : String
  quoted : Bool
  left : Nat

namespace Segment

def isOperatorKey (segment : Segment) : Bool := !segment.quoted && isDollarKey segment.name

def namespace? (segment : Segment) : Option Namespace :=
  if segment.quoted then none else Namespace.ofName? segment.name

end Segment

/-- Reads one part of a path. A bare name at the start of a path has no digit in front. -/
def segment (first : Bool) : Reader Segment
  | [] => failAt [] .invalidPath
  | c :: rest =>
    if isQuote c then
      (quoted c (c :: rest)).map fun p => p.map fun name => ⟨name, true, (c :: rest).length⟩
    else if first && Digits.isDecimal c then failAt (c :: rest) .invalidPath
    else
      match takeRun? isNameChar (c :: rest) with
      | some p => .ok (p.map fun name => ⟨String.ofList name, false, (c :: rest).length⟩)
      | none => failAt (c :: rest) .invalidPath

def moreSegments (text : List Char) : Except Failure (Continued (List Segment) text) :=
  match text with
  | '.' :: rest =>
    match segment false rest with
    | .error e => .error e
    | .ok ⟨part, rest', h⟩ =>
      (moreSegments rest').map fun p => ((p.map (part :: ·)).after h).behind.continued
  | _ => .ok (.start [])
termination_by text.length
decreasing_by exact Nat.lt_succ_of_lt h

def segments (text : List Char) : Except Failure (Parsed (List Segment) text) := do
  let ⟨part, rest, h⟩ ← segment true text
  let parts ← moreSegments rest
  return (parts.map (part :: ·)).after h

def splitNamespace : List Segment → Namespace × List Segment
  | [] => (.resource, [])
  | first :: rest =>
    match first.namespace? with
    | some ns => (ns, rest)
    | none => (.resource, first :: rest)

def splitKey : List Segment → Except Failure (List String × Option String)
  | [] => .ok ([], none)
  | part :: rest =>
    if part.isOperatorKey then
      if rest.isEmpty then .ok ([], some part.name)
      else .error ⟨.keyNotLast part.name, part.left⟩
    else do
      let (names, key) ← splitKey rest
      return (part.name :: names, key)

def keyFree : List Segment → Except Failure (List String)
  | [] => .ok []
  | part :: rest =>
    if part.isOperatorKey then .error ⟨.keyInValue part.name, part.left⟩
    else do
      let names ← keyFree rest
      return part.name :: names

def assignedPath : Reader AttributePath := fun text => do
  let p ← segments text
  let (ns, parts) := splitNamespace p.value
  let (names, key) ← splitKey parts
  let path := p.map fun _ => ⟨ns, names, key⟩
  match names, key with
  | [], none => failAt text .missingAttribute
  | [], some key => if isCombinator key then return path else failAt text (.keyWithoutAttribute key)
  | _ :: _, _ => return path

def valuePath : Reader AttributePath := fun text => do
  let p ← segments text
  let (ns, parts) := splitNamespace p.value
  let names ← keyFree parts
  return p.map fun _ => ⟨ns, names, none⟩

/-- Reads a comparator; one of two characters goes before one of one. -/
def comparator : Reader Comparator
  | '>' :: '=' :: _ => .ok (Parsed.first .gte).behind
  | '<' :: '=' :: _ => .ok (Parsed.first .lte).behind
  | '!' :: '=' :: _ => .ok (Parsed.first .ne).behind
  | '=' :: _ => .ok (.first .eq)
  | '>' :: _ => .ok (.first .gt)
  | '<' :: _ => .ok (.first .lt)
  | text => failAt text .missingComparator

/-! ## Expressions -/

def sumOperator? : Char → Option Arithmetic
  | '+' => some .add
  | '-' => some .sub
  | _ => none

def productOperator? : Char → Option Arithmetic
  | '*' => some .mul
  | '/' => some .div
  | _ => none

def chainTail (operator? : Char → Option Arithmetic) (operand : Reader Expr) (lhs : Expr)
    (text : List Char) : Except Failure (Continued Expr text) :=
  match hr : skipBlank text with
  | [] => .ok (.start lhs)
  | c :: rest =>
    match operator? c with
    | none => .ok (.start lhs)
    | some op =>
      match operand (skipBlank rest) with
      | .error e => .error e
      | .ok ⟨rhs, rest', h⟩ =>
        (chainTail operator? operand (.binary op lhs rhs) rest').map fun p =>
          (((p.after h).widen (length_skipBlank_le rest)).past
            (length_skipBlank_le text) hr).continued
termination_by text.length
decreasing_by
  exact Nat.lt_trans (Nat.lt_of_lt_of_le h (length_skipBlank_le rest))
    (length_lt_of_eq_cons (length_skipBlank_le text) hr)

def chain (operator? : Char → Option Arithmetic) (operand : Reader Expr) : Reader Expr :=
  fun text => do
    let ⟨lhs, rest, h⟩ ← operand text
    let p ← chainTail operator? operand lhs rest
    return p.after h

def arithmetic (primary : Reader Expr) : Reader Expr :=
  chain sumOperator? (chain productOperator? primary)

def elements (item : Reader Expr) (text : List Char) :
    Except Failure (Parsed (List Expr) text) :=
  match item text with
  | .error e => .error e
  | .ok ⟨expr, rest, h⟩ =>
    match hr : skipBlank rest with
    | ',' :: more =>
      (elements item more).map fun p =>
        ((p.map (expr :: ·)).past (length_skipBlank_le rest) hr).after h
    | ']' :: _ => .ok ((Parsed.token (length_skipBlank_le rest) hr [expr]).after h)
    | other => failAt other .arraySeparator
termination_by text.length
decreasing_by exact Nat.lt_trans (length_lt_of_eq_cons (length_skipBlank_le rest) hr) h

def arrayBody (item : Reader Expr) (text : List Char) : Except Failure (Parsed Expr text) :=
  match hr : skipBlank text with
  | ']' :: _ => .ok (.token (length_skipBlank_le text) hr (.array []))
  | _ =>
    (elements item (skipBlank text)).map fun p => (p.map .array).widen (length_skipBlank_le text)

def objectKey : Reader String
  | [] => failAt [] .invalidObjectKey
  | c :: rest =>
    if isQuote c then quoted c (c :: rest)
    else
      match takeRun? isNameChar (c :: rest) with
      | some p => .ok (p.map String.ofList)
      | none => failAt (c :: rest) .invalidObjectKey

def entry (item : Reader Expr) : Reader (String × Expr) := fun text =>
  match objectKey (skipBlank text) with
  | .error e => .error e
  | .ok ⟨key, rest, h⟩ =>
    match hr : skipBlank rest with
    | ':' :: more =>
      (item more).map fun p =>
        (((p.map (key, ·)).past (length_skipBlank_le rest) hr).after h).widen
          (length_skipBlank_le text)
    | other => failAt other (.missing ':')

def entries (item : Reader Expr) (text : List Char) :
    Except Failure (Parsed (List (String × Expr)) text) :=
  match entry item text with
  | .error e => .error e
  | .ok ⟨pair, rest, h⟩ =>
    match hr : skipBlank rest with
    | ',' :: more =>
      (entries item more).map fun p =>
        ((p.map (pair :: ·)).past (length_skipBlank_le rest) hr).after h
    | '}' :: _ => .ok ((Parsed.token (length_skipBlank_le rest) hr [pair]).after h)
    | other => failAt other .objectSeparator
termination_by text.length
decreasing_by exact Nat.lt_trans (length_lt_of_eq_cons (length_skipBlank_le rest) hr) h

def objectBody (item : Reader Expr) (text : List Char) : Except Failure (Parsed Expr text) :=
  match hr : skipBlank text with
  | '}' :: _ => .ok (.token (length_skipBlank_le text) hr (.object []))
  | _ =>
    (entries item (skipBlank text)).map fun p => (p.map .object).widen (length_skipBlank_le text)

def parenthesized (item : Reader Expr) (text : List Char) : Except Failure (Parsed Expr text) :=
  match item (skipBlank text) with
  | .error e => .error e
  | .ok ⟨expr, rest, h⟩ =>
    match hr : skipBlank rest with
    | ')' :: _ =>
      .ok (((Parsed.token (length_skipBlank_le rest) hr expr).after h).widen
        (length_skipBlank_le text))
    | other => failAt other (.missing ')')

def wordValue? : List Char → Option Value
  | ['t', 'r', 'u', 'e'] => some (.bool true)
  | ['f', 'a', 'l', 's', 'e'] => some (.bool false)
  | ['n', 'u', 'l', 'l'] => some .null
  | _ => none

/-- The value of the word that starts here, unless a dot behind it makes it the start of a path. -/
def wordValue (text : List Char) : Option (Parsed Value text) :=
  (takeRun? isNameChar text).bind fun p =>
    if p.rest.head? = some '.' then none
    else (wordValue? p.value).map fun value => p.map fun _ => value

def wordOrPath : Reader Expr := fun text =>
  match wordValue text with
  | some p => .ok (p.map .literal)
  | none => (valuePath text).map fun p => p.map .path

def startsNumber : List Char → Bool
  | '-' :: c :: _ => Digits.isDecimal c || c = '.'
  | '.' :: c :: _ => Digits.isDecimal c
  | c :: _ => Digits.isDecimal c
  | [] => false

/-- Reads a primary that starts here; `item` reads what stands inside one. -/
def primaryHere (item : Reader Expr) : Reader Expr
  | [] => failAt [] .missingExpression
  | '(' :: rest => (parenthesized item rest).map Parsed.behind
  | '[' :: rest => (arrayBody item rest).map Parsed.behind
  | '{' :: rest => (objectBody item rest).map Parsed.behind
  | '/' :: rest => (pattern ('/' :: rest)).map fun p => p.map .regex
  | c :: rest =>
    if isQuote c then (quoted c (c :: rest)).map fun p => p.map fun s => .literal (.string s)
    else if startsNumber (c :: rest) then
      (number (c :: rest)).map fun p => p.map fun x => .literal (.number x)
    else if isNameChar c then wordOrPath (c :: rest)
    else failAt (c :: rest) (.unexpected c)

/-- Reads a primary that is enclosed by `levels` fewer than the greatest number of others. -/
def primary : (levels : Nat) → Reader Expr
  | 0, text => failAt text .nestedTooDeep
  | levels + 1, text =>
    (primaryHere (arithmetic (primary levels)) (skipBlank text)).map fun p =>
      p.widen (length_skipBlank_le text)

def expression : Reader Expr := arithmetic (primary nestingLimit)

/-! ## Rules -/

structure Statement where
  path : AttributePath
  comparator : Comparator
  expr : Expr

def statement (text : List Char) : Except Failure Statement := do
  let ⟨path, rest, _⟩ ← assignedPath (skipBlank text)
  let beforeComparator := skipBlank rest
  let ⟨comparator, rest, _⟩ ← comparator beforeComparator
  if path.key.isSome ∧ comparator ≠ .eq then failAt beforeComparator .keyNeedsAssignment
  else
    let ⟨expr, rest, _⟩ ← expression (skipBlank rest)
    match skipBlank rest with
    | [] => return ⟨path, comparator, expr⟩
    | c :: more => failAt (c :: more) (.trailing c)

def parse (source : String) : Except PolicyError Clause :=
  match statement source.toList with
  | .ok s => .ok ⟨source, s.path, s.comparator, s.expr⟩
  | .error failure => .error (.rule source (source.toList.length - failure.left) failure.fault)

end Abac.Rule
