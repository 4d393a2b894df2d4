import Abac.Regex.Class
import Abac.Regex.Size

/-!
Reading regular expressions. Flags that are set inside a group are in force up to its end. Neither
look-around nor references to groups exist, and an escape that means nothing makes the expression
invalid.
-/
namespace Abac.Regex

def literalSet (flags : Flags) (c : Char) : CharSet := foldCase flags (.singleton c)

/-- The set of the point. Without Unicode it would match parts of characters, so there is none. -/
def pointSet? (flags : Flags) : Option CharSet :=
  if !flags.unicode then none
  else if flags.dotAll then some .all
  else some (CharSet.complement (.ofText (if flags.crlf then "a d" else "a")))

def startLook (flags : Flags) : Look :=
  if flags.multiLine then .lineStart flags.crlf else .textStart

def endLook (flags : Flags) : Look := if flags.multiLine then .lineEnd flags.crlf else .textEnd

def Primitive.node (flags : Flags) : Primitive → Node
  | .literal c => .one (literalSet flags c)
  | .set members => .one members
  | .look kind => .look kind

/-! ## Repetitions -/

def decimalDigits (flags : Flags) (value : Option Nat) (text : List Char) :
    Continued (Option Nat) text :=
  match text with
  | [] => .start value
  | c :: rest =>
    match Digits.decimal? c with
    | none => .start value
    | some d =>
      ((decimalDigits flags (some (value.getD 0 * 10 + d)) (skip flags rest)).widen
        (length_skip_le flags rest)).behind.continued
termination_by text.length
decreasing_by exact Nat.lt_succ_of_le (length_skip_le flags rest)

def countBound : Nat := 0x100000000

def count (flags : Flags) (text : List Char) : Option (Continued Nat text) :=
  match takeRun isBlank text with
  | ⟨_, rest, h⟩ =>
    match decimalDigits flags none rest with
    | ⟨none, _, _⟩ => none
    | ⟨some n, rest', h'⟩ =>
      if n < countBound then
        some ((((takeRun isBlank rest').map fun _ => n).widen h').widen h)
      else none

/-- How often something is repeated: at least, and at most unless there is no bound. -/
abbrev Bounds : Type := Nat × Option Nat

def closeBounds (flags : Flags) (bounds : Bounds) (text : List Char) :
    Option (Parsed Bounds text) :=
  match h : skip flags text with
  | '}' :: _ =>
    if bounds.2.all (bounds.1 ≤ ·) then some (.token (length_skip_le flags text) h bounds) else none
  | _ => none

def secondBound (flags : Flags) (least : Nat) (text : List Char) : Option (Parsed Bounds text) :=
  match hr : skip flags text with
  | ',' :: more =>
    match skip flags more with
    | '}' :: _ =>
      (closeBounds flags (least, none) more).map fun p => p.past (length_skip_le flags text) hr
    | _ =>
      match count flags (skip flags more) with
      | none => none
      | some ⟨most, rest, h⟩ =>
        (closeBounds flags (least, some most) rest).map fun p =>
          ((p.widen h).widen (length_skip_le flags more)).past (length_skip_le flags text) hr
  | _ => closeBounds flags (least, some least) text

def repetitionBounds (flags : Flags) (text : List Char) : Option (Parsed Bounds text) :=
  match count flags (skip flags text) with
  | none => none
  | some ⟨least, rest, h⟩ =>
    (secondBound flags least rest).map fun p => (p.widen h).widen (length_skip_le flags text)

/-- A question mark behind a repetition changes which match is preferred, and not whether there is
one. -/
def skipQuestion : (text : List Char) → Continued Unit text
  | '?' :: _ => (Parsed.first ()).continued
  | _ => .start ()

/-! ## Groups -/

def flagLetters : List Char := ['i', 'm', 's', 'U', 'u', 'R', 'x', '-']

def Flags.set (flags : Flags) (letter : Char) (on : Bool) : Flags :=
  match letter with
  | 'i' => { flags with caseless := on }
  | 'm' => { flags with multiLine := on }
  | 's' => { flags with dotAll := on }
  | 'u' => { flags with unicode := on }
  | 'R' => { flags with crlf := on }
  | 'x' => { flags with spaced := on }
  | _ => flags

/-- The flags after a list of signs. A sign stands once, and a hyphen is not the last. -/
def Flags.change? (flags : Flags) (signs : List Char) : Option Flags :=
  if signs.all flagLetters.contains ∧ signs.Nodup ∧ signs.getLast? ≠ some '-' then
    let off := (signs.dropWhile (· ≠ '-')).drop 1
    let on := signs.takeWhile (· ≠ '-')
    some (off.foldl (·.set · false) (on.foldl (·.set · true) flags))
  else none

inductive Opening where
  /-- A group of its own, with the flags in force inside it. -/
  | group (grouping : Grouping) (flags : Flags)
  /-- A change of flags up to the end of the enclosing group. -/
  | change (flags : Flags)

def isNameStart (c : Char) : Bool := c = '_' || isNameLetter c
where
  isNameLetter (c : Char) : Bool :=
    if c.toNat < 0x80 then isAsciiLetter c else Unicode.alphabetic.contains c

def isNamePart (c : Char) : Bool :=
  c = '_' || c = '.' || c = '[' || c = ']' || isAlphanumeric c

def groupName (flags : Flags) : (text : List Char) → Option (Parsed Opening text)
  | [] => none
  | first :: rest =>
    match takeRun (· ≠ '>') rest with
    | ⟨_, [], _⟩ => none
    | ⟨name, _ :: _, h⟩ =>
      if isNameStart first ∧ name.all isNamePart then
        let opening : Opening := .group (.named (String.ofList (first :: name))) flags
        some ((Parsed.first opening).widen h).behind
      else none

def flagList (flags : Flags) (text : List Char) : Option (Parsed Opening text) :=
  match takeRun (fun c => c ≠ ':' && c ≠ ')') text with
  | ⟨_, [], _⟩ => none
  | ⟨signs, c :: _, h⟩ =>
    if c = ')' ∧ signs = [] then none
    else
      (flags.change? signs).map fun flags =>
        (Parsed.first (if c = ':' then .group .plain flags else .change flags)).widen h

def opening (flags : Flags) (text : List Char) : Option (Continued Opening text) :=
  match h : skip flags text with
  | '?' :: '=' :: _ => none
  | '?' :: '!' :: _ => none
  | '?' :: '<' :: '=' :: _ => none
  | '?' :: '<' :: '!' :: _ => none
  | '?' :: 'P' :: '<' :: rest =>
    (groupName flags rest).map fun p =>
      (p.behind.behind.past (length_skip_le flags text) h).continued
  | '?' :: '<' :: rest =>
    (groupName flags rest).map fun p => (p.behind.past (length_skip_le flags text) h).continued
  | '?' :: rest =>
    (flagList flags rest).map fun p => (p.past (length_skip_le flags text) h).continued
  | _ => some ⟨.group .numbered flags, skip flags text, length_skip_le flags text⟩

/-! ## Expressions -/

/-- What has been read of a group: finished alternatives and the parts of the current one, all
newest first. -/
structure BodyState where
  alternatives : List Node := []
  parts : List Node := []

namespace BodyState

def add (state : BodyState) (part : Node) : BodyState :=
  { state with parts := part :: state.parts }

def branch (state : BodyState) : BodyState :=
  ⟨.ofSequence state.parts.reverse :: state.alternatives, []⟩

def finish (state : BodyState) : Node := .ofAlternatives state.branch.alternatives.reverse

def repeatLast? (state : BodyState) (bounds : Bounds) : Option BodyState :=
  match state.parts with
  | [] => none
  | .flags :: _ => none
  | .empty :: _ => none
  | part :: rest => some { state with parts := .repeated part bounds.1 bounds.2 :: rest }

end BodyState

abbrev BodyReader : Type := Flags → (text : List Char) → Option (Continued Node text)

/-- A reader of one part, which takes the flags in force and what has been read before, and answers
both as they are behind the part. -/
abbrev PartReader : Type :=
  BodyState → Flags → (text : List Char) → Option (Continued (BodyState × Flags) text)

def groupPart (inner : BodyReader) : PartReader := fun state flags text =>
  match opening flags text with
  | none => none
  | some ⟨.change flags, rest, h⟩ => some ⟨(state.add .flags, flags), rest, h⟩
  | some ⟨.group grouping inside, rest, h⟩ =>
    match inner inside rest with
    | some ⟨node, ')' :: _, h'⟩ =>
      some (((Parsed.first (state.add (.group grouping node), flags)).widen h').continued.widen h)
    | _ => none

def repeatPart (bounds : Bounds) : PartReader := fun state flags text =>
  (state.repeatLast? bounds).map fun state => (skipQuestion text).map fun _ => (state, flags)

def part (inner : BodyReader) (c : Char) : PartReader := fun state flags text =>
  match c with
  | '|' => some (.start (state.branch, flags))
  | '(' => groupPart inner state flags text
  | '[' =>
    (classSet flags classLimit text).map fun p =>
      (p.map fun set => (state.add (.bracket set), flags)).continued
  | '*' => repeatPart (0, none) state flags text
  | '+' => repeatPart (1, none) state flags text
  | '?' => repeatPart (0, some 1) state flags text
  | '{' =>
    match repetitionBounds flags text with
    | none => none
    | some ⟨bounds, rest, h⟩ =>
      (repeatPart bounds state flags rest).map fun p => (p.after h).continued
  | '.' => (pointSet? flags).map fun set => .start (state.add (.one set), flags)
  | '^' => some (.start (state.add (.look (startLook flags)), flags))
  | '$' => some (.start (state.add (.look (endLook flags)), flags))
  | '\\' =>
    (escape flags text).map fun p =>
      (p.map fun escaped => (state.add (escaped.node flags), flags)).continued
  | c => some (.start (state.add (.one (literalSet flags c)), flags))

def body (inner : BodyReader) (state : BodyState) (flags : Flags) (text : List Char) :
    Option (Continued Node text) :=
  match h : skip flags text with
  | [] => some ⟨state.finish, skip flags text, length_skip_le flags text⟩
  | c :: rest =>
    if c = ')' then some ⟨state.finish, skip flags text, length_skip_le flags text⟩
    else
      match part inner c state flags rest with
      | none => none
      | some ⟨(state, flags'), rest', h'⟩ =>
        (body inner state flags' rest').map fun p =>
          ((p.widen h').past (length_skip_le flags text) h).continued
termination_by text.length
decreasing_by exact Nat.lt_of_le_of_lt h' (length_lt_of_eq_cons (length_skip_le flags text) h)

def nestingLimit : Nat := 250

def nestedBody : (levels : Nat) → BodyReader
  | 0, _, _ => none
  | levels + 1, flags, text => body (nestedBody levels) {} flags text

def sizeLimit : Nat := 0xA00000

def parse? (text : String) : Option Node :=
  match nestedBody (nestingLimit + 1) {} text.toList with
  | some ⟨node, [], _⟩ =>
    if node.depth ≤ nestingLimit ∧ node.groupNames.Nodup ∧ node.size ≤ sizeLimit then some node
    else none
  | _ => none

end Abac.Regex
