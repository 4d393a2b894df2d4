import Abac.Decimal.Shortest

/-!
The text of a binary number. In JSON it has the fewest digits that read back, with a point and at
least one digit on both sides of it as long as the leading digit stands between the fifth place
after the point and the sixteenth before it, and with a signed power of ten otherwise. As plain text
it never has a power of ten, and a point only before a fraction.
-/
namespace Abac.Decimal

/-- Where positional notation ends: the least and the greatest power of ten of a leading digit that
is still written in full. -/
structure Notation where
  least : Int
  greatest : Int

def jsonNotation : Notation := ⟨-5, 15⟩

/-- Digits with a point in them, `shift` being the power of ten of the last digit. -/
def positional (digits : List Char) (shift : Int) : List Char :=
  if 0 ≤ shift then digits ++ List.replicate shift.natAbs '0' ++ ['.', '0']
  else
    let places := shift.natAbs
    let padded := Digits.padTo (places + 1) digits
    padded.take (padded.length - places) ++ '.' :: padded.drop (padded.length - places)

def scientific (digits : List Char) (power : Int) : List Char :=
  let mantissa := match digits with
    | [] => []
    | [d] => [d]
    | d :: rest => d :: '.' :: rest
  mantissa ++ 'e' :: (if power < 0 then '-' else '+') :: Digits.ofNat power.natAbs

namespace Notation

def textOfPositive (format : Notation) (x : Float) : List Char :=
  let (significand, shift) := shortest x
  let digits := Digits.ofNat significand
  let power := shift + digits.length - 1
  if format.least ≤ power ∧ power ≤ format.greatest then positional digits shift
  else scientific digits power

def text (format : Notation) (x : Float) : String :=
  let negative : Bool := signBit ≤ x.toBits.toNat
  let size := if x == 0.0 then ['0', '.', '0'] else format.textOfPositive x.abs
  String.ofList (if negative then '-' :: size else size)

end Notation

def plainOfPositive (x : Float) : List Char :=
  let (significand, shift) := shortest x
  let digits := Digits.ofNat significand
  if 0 ≤ shift then digits ++ List.replicate shift.natAbs '0' else positional digits shift

def plainText (x : Float) : String :=
  if x.isNaN then "NaN"
  else
    let size := if x.isInf then ['i', 'n', 'f'] else if x == 0.0 then ['0'] else plainOfPositive x.abs
    String.ofList (if signBit ≤ x.toBits.toNat then '-' :: size else size)

end Abac.Decimal
