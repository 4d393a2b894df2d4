import Abac.Decimal
import Abac.Setting

/-!
Numbers of TOML. Digits may be grouped by single underscores. An integer has 64 bits and, without a
sign, may stand in base sixteen, eight or two; a number with a fraction or a power of ten is a finite
binary one, and infinity and not-a-number have names.
-/
namespace Abac.Toml

def groupedDigits? (base : Nat) (text : List Char) : Option (List Nat) :=
  if ((text.splitOn '_').all fun group => group ≠ []) then
    (text.filter (· ≠ '_')).mapM fun c => (Digits.hex? c).filter (· < base)
  else none

def wholeDigits? (text : List Char) : Option (List Nat) :=
  (groupedDigits? 10 text).filter fun digits => digits.length = 1 ∨ digits.head? ≠ some 0

def based? : List Char → Option (List Nat × Nat)
  | '0' :: 'x' :: rest => (groupedDigits? 16 rest).map (·, 16)
  | '0' :: 'o' :: rest => (groupedDigits? 8 rest).map (·, 8)
  | '0' :: 'b' :: rest => (groupedDigits? 2 rest).map (·, 2)
  | _ => none

def integer? (text : List Char) : Option Int :=
  let n : Option Int := match based? text with
    | some (digits, base) => some (Digits.toNat base digits)
    | none =>
      let (negative, rest) := Decimal.splitSign text
      (wholeDigits? rest).map fun digits =>
        let size : Int := Digits.toNat 10 digits
        if negative then -size else size
  n.filter Digits.isWord

def isFraction : List Char → Bool
  | [] => true
  | c :: rest => c = '.' && (groupedDigits? 10 rest).isSome

def isPower : List Char → Bool
  | [] => true
  | c :: rest =>
    (c = 'e' || c = 'E') && (groupedDigits? 10 (Decimal.splitSign rest).2).isSome

def pointed? (text : List Char) : Option Float :=
  let size := (Decimal.splitSign text).2
  let isPoint (c : Char) : Bool := c = '.'
  let isMark (c : Char) : Bool := c = 'e' || c = 'E'
  let front := size.takeWhile fun c => !isMark c
  let power := size.dropWhile fun c => !isMark c
  let whole := front.takeWhile fun c => !isPoint c
  let fraction := front.dropWhile fun c => !isPoint c
  if (wholeDigits? whole).isSome ∧ isFraction fraction ∧ isPower power ∧
      (fraction ≠ [] ∨ power ≠ []) then
    ((Decimal.readNumeral (text.filter (· ≠ '_'))).map Numeral.toFloat).filter Float.isFinite
  else none

def named? (text : List Char) : Option Float :=
  if (Decimal.splitSign text).2 ∈ ["inf".toList, "nan".toList] then Decimal.readNamed text
  else none

def number? (text : List Char) : Option Setting :=
  match integer? text with
  | some n => some (.integer n)
  | none => ((pointed? text).or (named? text)).map .decimal

end Abac.Toml
