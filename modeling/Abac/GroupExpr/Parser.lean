import Abac.GroupExpr
import Abac.PolicyError

/-!
Reading group expressions. `NOT` binds closest, then `AND`, then `OR`; the latter two group to the
left. Every operand of `NOT`, name and parenthesis is enclosed by fewer than `nestingLimit` uses of
`NOT` and parentheses.
-/
namespace Abac.GroupExpr

abbrev Reader : Type := (input : List Token) → Except Failure (Parsed GroupExpr input)

def nestingLimit : Nat := 128

def failAt {α : Type} (input : List Token) (fault : Fault) : Except Failure α :=
  .error ⟨fault, match input with
    | [] => 0
    | token :: _ => token.left⟩

def chainTail (kind : TokenKind) (join : GroupExpr → GroupExpr → GroupExpr) (operand : Reader)
    (lhs : GroupExpr) (input : List Token) : Except Failure (Continued GroupExpr input) :=
  match input with
  | [] => .ok (.start lhs)
  | token :: rest =>
    if token.kind = kind then
      match operand rest with
      | .error e => .error e
      | .ok ⟨rhs, rest', h⟩ =>
        (chainTail kind join operand (join lhs rhs) rest').map fun p =>
          (p.after h).behind.continued
    else .ok (.start lhs)
termination_by input.length
decreasing_by exact Nat.lt_succ_of_lt h

def chain (kind : TokenKind) (join : GroupExpr → GroupExpr → GroupExpr) (operand : Reader) :
    Reader := fun input => do
  let ⟨lhs, rest, h⟩ ← operand input
  let p ← chainTail kind join operand lhs rest
  return p.after h

def disjunction (operand : Reader) : Reader := chain .or .or (chain .and .and operand)

def closing (e : GroupExpr) : Reader
  | [] => failAt [] .missingClosing
  | token :: rest =>
    if token.kind = .closing then .ok (.first e) else failAt (token :: rest) .missingClosing

/-- Reads a name, a negation or a parenthesis; `inner` reads what these enclose. -/
def operandHere (inner : Reader) : Reader
  | [] => failAt [] .missingName
  | token :: rest =>
    match token.kind with
    | .not => (inner rest).map fun p => (p.map .not).behind
    | .name word => .ok (.first (.policy word))
    | .opening =>
      match disjunction inner rest with
      | .error e => .error e
      | .ok ⟨e, rest', h⟩ => ((closing e rest').map fun p => p.after h).map Parsed.behind
    | kind => failAt (token :: rest) (.unexpected kind)

/-- Reads an operand that is enclosed by `levels` fewer than the greatest number of others. -/
def operand : (levels : Nat) → Reader
  | 0, input => failAt input .nestedTooDeep
  | levels + 1, input => operandHere (operand levels) input

def ofTokens (input : List Token) : Except Failure GroupExpr := do
  let ⟨e, rest, _⟩ ← disjunction (operand nestingLimit) input
  match rest with
  | [] => return e
  | token :: rest => failAt (token :: rest) (.missingConnective token.kind)

def parse (source : String) : Except PolicyError GroupExpr :=
  match tokens source.toList >>= ofTokens with
  | .ok e => .ok e
  | .error failure =>
    .error (.expression source (source.toList.length - failure.left) failure.fault)

end Abac.GroupExpr
