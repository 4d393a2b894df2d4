import Abac.Character
import Abac.Parsing
import Abac.Regex.Node
import Abac.Unicode.Property

/-!
The parts of a regular expression that stand for one character: escapes, the named classes, and
sets between brackets with their ranges, nested sets and set operators.
-/
namespace Abac.Regex

structure Flags where
  caseless : Bool := false
  multiLine : Bool := false
  dotAll : Bool := false
  /-- Layout: blanks and comments between the parts are passed over. -/
  spaced : Bool := false
  crlf : Bool := false
  unicode : Bool := true

abbrev Reader (α : Type) : Type := (text : List Char) → Option (Parsed α text)

/-- Passes over blanks and over comments, which run from a number sign to the end of the line. -/
def skipLayout : (inComment : Bool) → List Char → List Char
  | _, [] => []
  | inComment, c :: rest =>
    if inComment then skipLayout (c ≠ '\n') rest
    else if isBlank c then skipLayout false rest
    else if c = '#' then skipLayout true rest
    else c :: rest

def skip (flags : Flags) (text : List Char) : List Char :=
  if flags.spaced then skipLayout false text else text

theorem length_skipLayout_le (inComment : Bool) (text : List Char) :
    (skipLayout inComment text).length ≤ text.length := by
  induction text generalizing inComment with
  | nil => simp [skipLayout]
  | cons c rest ih =>
    simp only [skipLayout, List.length_cons]
    split
    · exact Nat.le_succ_of_le (ih _)
    · split
      · exact Nat.le_succ_of_le (ih _)
      · split
        · exact Nat.le_succ_of_le (ih _)
        · simp

theorem length_skip_le (flags : Flags) (text : List Char) :
    (skip flags text).length ≤ text.length := by
  unfold skip
  split
  · exact length_skipLayout_le _ _
  · exact Nat.le_refl _

/-! ## Named classes -/

def asciiClasses : List (String × CharSet) := [
  ("alnum", .ofText "30-39 41-5a 61-7a"),
  ("alpha", .ofText "41-5a 61-7a"),
  ("ascii", .ofText "0-7f"),
  ("blank", .ofText "9 20"),
  ("cntrl", .ofText "0-1f 7f"),
  ("digit", .ofText "30-39"),
  ("graph", .ofText "21-7e"),
  ("lower", .ofText "61-7a"),
  ("print", .ofText "20-7e"),
  ("punct", .ofText "21-2f 3a-40 5b-60 7b-7e"),
  ("space", .ofText "9-d 20"),
  ("upper", .ofText "41-5a"),
  ("word", .ofText "30-39 41-5a 5f 61-7a"),
  ("xdigit", .ofText "30-39 41-46 61-66")]

def asciiWord : CharSet := .ofText "30-39 41-5a 5f 61-7a"

def letterClass? (unicode : Bool) (letter : Char) : Option CharSet :=
  match letter with
  | 'd' => some (if unicode then Unicode.decimalNumber else .ofText "30-39")
  | 's' => some (if unicode then Unicode.whiteSpace else .ofText "9-d 20")
  | 'w' => some (if unicode then Unicode.wordCharacter else asciiWord)
  | _ => none

def ascii : CharSet := .ofText "0-7f"

/-- The complement of a set. Without Unicode a complement would match parts of characters, so there
is none. -/
def negate? (flags : Flags) (set : CharSet) : Option CharSet :=
  if flags.unicode then some set.complement else none

def foldCase (flags : Flags) (set : CharSet) : CharSet :=
  if !flags.caseless then set
  else if flags.unicode then Unicode.closeCase set
  else
    let shift (lo hi : Nat) (by' : Nat → Nat) : List (Nat × Nat) :=
      (set.inter ⟨#[(lo, hi)]⟩).ranges.toList.map fun (a, b) => (by' a, by' b)
    .ofRanges (set.ranges.toList ++ shift 0x41 0x5A (· + 32) ++ shift 0x61 0x7A (· - 32))

def foldAndNegate? (flags : Flags) (negated : Bool) (set : CharSet) : Option CharSet :=
  let set := foldCase flags set
  if negated then negate? flags set else some set

/-! ## Escapes -/

inductive Primitive where
  | literal (c : Char)
  | set (set : CharSet)
  | look (look : Look)

def charOfPoint? (point : Nat) : Option Char :=
  if point < 0xD800 ∨ (0xDFFF < point ∧ point ≤ 0x10FFFF) then some (Char.ofNat point) else none

def hexDigits (flags : Flags) : (count : Nat) → (value : Nat) → (text : List Char) →
    Option (Continued Nat text)
  | 0, value, _ => some (.start value)
  | count + 1, value, text =>
    match h : skip flags text with
    | [] => none
    | c :: rest =>
      match Digits.hex? c with
      | none => none
      | some d =>
        (hexDigits flags count (value * 16 + d) rest).map fun p =>
          (p.past (length_skip_le flags text) h).continued

def hexUpToBrace (flags : Flags) (seen : Bool) (value : Nat) (text : List Char) :
    Option (Parsed Nat text) :=
  match h : skip flags text with
  | [] => none
  | c :: rest =>
    if c = '}' then if seen then some (.token (length_skip_le flags text) h value) else none
    else
      match Digits.hex? c with
      | none => none
      | some d =>
        (hexUpToBrace flags true (value * 16 + d) rest).map fun p =>
          p.past (length_skip_le flags text) h
termination_by text.length
decreasing_by exact length_lt_of_eq_cons (length_skip_le flags text) h

def furtherDigits (letter : Char) : Nat := if letter = 'x' then 1 else if letter = 'u' then 3 else 7

/-- Reads a code point from behind the letter that introduces it. Without Unicode a code of two
digits is a byte, which has to be a character by itself. -/
def hexEscape (flags : Flags) (letter : Char) (text : List Char) : Option (Parsed Char text) :=
  match h : skip flags text with
  | [] => none
  | c :: rest =>
    let code : Option (Parsed Nat text) :=
      if c = '{' then
        (hexUpToBrace flags false 0 rest).map fun p => p.past (length_skip_le flags text) h
      else
        (Digits.hex? c).bind fun d =>
          (hexDigits flags (furtherDigits letter) d rest).bind fun p =>
            if letter = 'x' ∧ !flags.unicode ∧ 0x7F < p.value then none
            else some (p.past (length_skip_le flags text) h)
    code.bind fun p => (charOfPoint? p.value).map fun c => p.map fun _ => c

def upToBrace (flags : Flags) (text : List Char) : Option (Parsed (List Char) text) :=
  match h : skip flags text with
  | [] => none
  | c :: rest =>
    if c = '}' then some (.token (length_skip_le flags text) h [])
    else
      (upToBrace flags rest).map fun p => (p.map (c :: ·)).past (length_skip_le flags text) h
termination_by text.length
decreasing_by exact length_lt_of_eq_cons (length_skip_le flags text) h

structure PropertyQuery where
  name : String
  value : Option String
  differs : Bool

def splitAtSign (sign : List Char) : List Char → Option (List Char × List Char)
  | [] => none
  | c :: rest =>
    if sign.isPrefixOf (c :: rest) then some ([], (c :: rest).drop sign.length)
    else (splitAtSign sign rest).map fun (before, after) => (c :: before, after)

def PropertyQuery.ofText (text : List Char) : PropertyQuery :=
  let pair (differs : Bool) (parts : List Char × List Char) : PropertyQuery :=
    ⟨String.ofList parts.1, some (String.ofList parts.2), differs⟩
  match splitAtSign ['!', '='] text, splitAtSign [':'] text, splitAtSign ['='] text with
  | some parts, _, _ => pair true parts
  | none, some parts, _ => pair false parts
  | none, none, some parts => pair false parts
  | none, none, none => ⟨String.ofList text, none, false⟩

def PropertyQuery.set? (query : PropertyQuery) : Option CharSet :=
  match query.value with
  | none => Unicode.namedSet? query.name
  | some value => Unicode.propertyValueSet? query.name value

def propertyEscape (flags : Flags) (negated : Bool) (text : List Char) :
    Option (Parsed CharSet text) :=
  if !flags.unicode then none
  else
    let query : Option (Parsed PropertyQuery text) :=
      match h : skip flags text with
      | [] => none
      | c :: rest =>
        if c = '\\' then none
        else if c = '{' then
          (upToBrace flags rest).map fun p =>
            (p.map PropertyQuery.ofText).past (length_skip_le flags text) h
        else some (.token (length_skip_le flags text) h ⟨c.toString, none, false⟩)
    query.bind fun p =>
      (p.value.set?.bind (foldAndNegate? flags (negated != p.value.differs))).map fun set =>
        p.map fun _ => set

def isWordKindChar (c : Char) : Bool := isAsciiLetter c || c = '-'

def wordKindName (flags : Flags) (text : List Char) : Continued (List Char) text :=
  match h : skip flags text with
  | c :: rest =>
    if isWordKindChar c then
      (((wordKindName flags rest).map (c :: ·)).past (length_skip_le flags text) h).continued
    else ⟨[], skip flags text, length_skip_le flags text⟩
  | [] => ⟨[], skip flags text, length_skip_le flags text⟩
termination_by text.length
decreasing_by exact length_lt_of_eq_cons (length_skip_le flags text) h

def wordKind? (unicode : Bool) (name : String) : Option Look :=
  match name with
  | "start" => some (.wordStart unicode)
  | "end" => some (.wordEnd unicode)
  | "start-half" => some (.wordStartHalf unicode)
  | "end-half" => some (.wordEndHalf unicode)
  | _ => none

def wordBoundaryKind (flags : Flags) : (text : List Char) → Option (Continued Look text)
  | '{' :: rest =>
    match wordKindName flags rest with
    | ⟨[], [], _⟩ => none
    | ⟨[], _, _⟩ => some (.start (.wordBoundary flags.unicode))
    | ⟨name, '}' :: _, h⟩ =>
      (wordKind? flags.unicode (String.ofList name)).map fun kind =>
        ((Parsed.first kind).widen h).behind.continued
    | _ => none
  | _ => some (.start (.wordBoundary flags.unicode))

/-- The characters that may be escaped without need: those of ASCII that are neither letters nor
digits, the angle brackets excepted, which mean word boundaries. -/
def isEscapable (c : Char) : Bool :=
  c.toNat < 0x80 && !isAsciiLetter c && !Digits.isDecimal c && c ≠ '<' && c ≠ '>'

def simpleEscape? (flags : Flags) (c : Char) : Option Primitive :=
  match c with
  | 'a' => some (.literal '\x07')
  | 'f' => some (.literal '\x0c')
  | 't' => some (.literal '\t')
  | 'n' => some (.literal '\n')
  | 'r' => some (.literal '\r')
  | 'v' => some (.literal '\x0b')
  | 'A' => some (.look .textStart)
  | 'z' => some (.look .textEnd)
  | 'B' => some (.look (.notWordBoundary flags.unicode))
  | '<' => some (.look (.wordStart flags.unicode))
  | '>' => some (.look (.wordEnd flags.unicode))
  | c =>
    match letterClass? flags.unicode c, letterClass? flags.unicode c.toLower with
    | some set, _ => some (.set set)
    | none, some set => (negate? flags set).map .set
    | none, none => if isEscapable c then some (.literal c) else none

def escape (flags : Flags) : Reader Primitive
  | [] => none
  | c :: rest =>
    if c = 'x' ∨ c = 'u' ∨ c = 'U' then
      (hexEscape flags c rest).map fun p => (p.map .literal).behind
    else if c = 'p' ∨ c = 'P' then
      (propertyEscape flags (c = 'P') rest).map fun p => (p.map .set).behind
    else if c = 'b' then (wordBoundaryKind flags rest).map fun p => (p.map .look).behind
    else (simpleEscape? flags c).map fun p => .first p

/-! ## Sets between brackets -/

def classItem (flags : Flags) : Reader Primitive
  | [] => none
  | '\\' :: rest => (escape flags rest).map Parsed.behind
  | c :: _ => some (.first (.literal c))

def Primitive.bound? (flags : Flags) : Primitive → Option Char
  | .literal c => if flags.unicode || c.toNat < 0x80 then some c else none
  | _ => none

def Primitive.classSet? (flags : Flags) : Primitive → Option CharSet
  | .set members => some members
  | .look _ => none
  | .literal c => (Primitive.bound? flags (.literal c)).map .singleton

/-- Reads an item or a range. A hyphen before the closing bracket or another hyphen makes no
range. -/
def classRange (flags : Flags) (text : List Char) : Option (Parsed CharSet text) :=
  match classItem flags text with
  | none => none
  | some ⟨first, rest, h⟩ =>
    let single := (first.classSet? flags).map fun set => ⟨set, rest, h⟩
    match hr : skip flags rest with
    | [] => none
    | '-' :: afterHyphen =>
      match skip flags afterHyphen with
      | ']' :: _ => single
      | '-' :: _ => single
      | _ =>
        match classItem flags (skip flags afterHyphen) with
        | none => none
        | some p =>
          match first.bound? flags, p.value.bound? flags with
          | some lo, some hi =>
            if lo.toNat ≤ hi.toNat then
              let range := p.map fun _ => (⟨#[(lo.toNat, hi.toNat)]⟩ : CharSet)
              some (((range.widen (length_skip_le flags afterHyphen)).past
                (length_skip_le flags rest) hr).after h)
            else none
          | _, _ => none
    | _ => single

def colonName (text : List Char) : Option (Parsed CharSet text) :=
  match takeRun (· ≠ ':') text with
  | ⟨name, ':' :: ']' :: _, h⟩ =>
    (asciiClasses.lookup (String.ofList name)).map fun set => (Parsed.first set).behind.widen h
  | _ => none

def colonClass : (text : List Char) → Option (Parsed (Bool × CharSet) text)
  | ':' :: '^' :: rest => (colonName rest).map fun p => (p.map (true, ·)).behind.behind
  | ':' :: rest => (colonName rest).map fun p => (p.map (false, ·)).behind
  | _ => none

inductive SetOperator where
  | intersection | difference | symmetricDifference

def SetOperator.apply : SetOperator → CharSet → CharSet → CharSet
  | intersection => .inter
  | difference => .diff
  | symmetricDifference => .symmDiff

/-- A set that is being read: the items since the last operator, and that operator with what stands
before it. -/
structure ClassState where
  negated : Bool
  items : List CharSet := []
  pending : Option (SetOperator × CharSet) := none

namespace ClassState

def add (state : ClassState) (set : CharSet) : ClassState :=
  { state with items := set :: state.items }

def total (flags : Flags) (state : ClassState) : CharSet :=
  let items := CharSet.unionAll state.items
  match state.pending with
  | none => items
  | some (op, before) => op.apply (foldCase flags before) (foldCase flags items)

def operator (flags : Flags) (op : SetOperator) (state : ClassState) : ClassState :=
  { state with items := [], pending := some (op, state.total flags) }

end ClassState

def leadingHyphens (flags : Flags) (text : List Char) : Continued Bool text :=
  match h : skip flags text with
  | '-' :: rest =>
    (((leadingHyphens flags rest).map fun _ => true).past (length_skip_le flags text) h).continued
  | _ => ⟨false, skip flags text, length_skip_le flags text⟩
termination_by text.length
decreasing_by exact length_lt_of_eq_cons (length_skip_le flags text) h

def circumflex (flags : Flags) (text : List Char) : Continued Bool text :=
  match h : skip flags text with
  | '^' :: _ => (Parsed.token (length_skip_le flags text) h true).continued
  | _ => ⟨false, skip flags text, length_skip_le flags text⟩

def firstItems (flags : Flags) (negated : Bool) (text : List Char) : Continued ClassState text :=
  match leadingHyphens flags text with
  | ⟨true, rest, h⟩ => ⟨{ negated, items := [.singleton '-'] }, rest, h⟩
  | ⟨false, ']' :: _, h⟩ =>
    ((Parsed.first { negated, items := [.singleton ']'] }).widen h).continued
  | ⟨false, rest, h⟩ => ⟨{ negated }, rest, h⟩

def classStart (flags : Flags) (text : List Char) : Continued ClassState text :=
  match circumflex flags text with
  | ⟨negated, rest, h⟩ => (firstItems flags negated rest).widen h

def innerSet (flags : Flags) (nested : Reader CharSet) : Reader CharSet := fun text =>
  match colonClass text with
  | some p => (foldAndNegate? flags p.value.1 p.value.2).map fun set => p.map fun _ => set
  | none => nested text

def classBody (flags : Flags) (nested : Reader CharSet) (state : ClassState) (text : List Char) :
    Option (Parsed CharSet text) :=
  match h : skip flags text with
  | [] => none
  | '[' :: rest =>
    match innerSet flags nested rest with
    | none => none
    | some ⟨set, rest', h'⟩ =>
      (classBody flags nested (state.add set) rest').map fun p =>
        (p.after h').past (length_skip_le flags text) h
  | ']' :: _ =>
    (foldAndNegate? flags state.negated (state.total flags)).map fun set =>
      .token (length_skip_le flags text) h set
  | '&' :: '&' :: rest =>
    (classBody flags nested (state.operator flags .intersection) rest).map fun p =>
      p.behind.past (length_skip_le flags text) h
  | '-' :: '-' :: rest =>
    (classBody flags nested (state.operator flags .difference) rest).map fun p =>
      p.behind.past (length_skip_le flags text) h
  | '~' :: '~' :: rest =>
    (classBody flags nested (state.operator flags .symmetricDifference) rest).map fun p =>
      p.behind.past (length_skip_le flags text) h
  | _ =>
    match classRange flags (skip flags text) with
    | none => none
    | some ⟨set, rest, h'⟩ =>
      (classBody flags nested (state.add set) rest).map fun p =>
        (p.after h').widen (length_skip_le flags text)
termination_by text.length
decreasing_by
  · exact Nat.lt_trans h' (length_lt_of_eq_cons (length_skip_le flags text) h)
  · exact Nat.lt_of_succ_lt (length_lt_of_eq_cons (length_skip_le flags text) h)
  · exact Nat.lt_of_succ_lt (length_lt_of_eq_cons (length_skip_le flags text) h)
  · exact Nat.lt_of_succ_lt (length_lt_of_eq_cons (length_skip_le flags text) h)
  · exact Nat.lt_of_lt_of_le h' (length_skip_le flags text)

def classLimit : Nat := 250

def classSet (flags : Flags) : (levels : Nat) → Reader CharSet
  | 0, _ => none
  | levels + 1, text =>
    match classStart flags text with
    | ⟨state, rest, h⟩ =>
      (classBody flags (classSet flags levels) state rest).map fun p => p.widen h

end Abac.Regex
