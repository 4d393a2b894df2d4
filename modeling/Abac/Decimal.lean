import Abac.Digits

/-!
Decimal numerals and the binary numbers nearest to them. A numeral is a sign, a significand of any
size and a power of ten; `Numeral.toFloat` rounds it once, to the nearest binary number.
-/
namespace Abac

/-- The number `significand · 10 ^ exponent`, negated when `negative`. -/
structure Numeral where
  negative : Bool
  significand : Nat
  exponent : Int
deriving Repr, DecidableEq

namespace Decimal

def infinity : Float := Float.ofBits 0x7FF0000000000000

def nan : Float := Float.ofBits 0x7FF8000000000000

/-- The binary number nearest to `significand · 10 ^ exponent`, ties to even. Beyond the largest
finite number it is infinite, and below half of the least positive one it is zero. -/
def nearest (significand : Nat) (exponent : Int) : Float :=
  let top := exponent + (Digits.ofNat significand).length
  if significand = 0 then 0.0
  else if top > 310 then infinity
  else if top < -330 then 0.0
  else Float.ofScientific significand (decide (exponent < 0)) exponent.natAbs

end Decimal

def Numeral.toFloat (numeral : Numeral) : Float :=
  let size := Decimal.nearest numeral.significand numeral.exponent
  if numeral.negative then -size else size

namespace Decimal

open Digits

/-- Splits an optional sign off; the flag is set for a minus. -/
def splitSign : List Char → Bool × List Char
  | '-' :: rest => (true, rest)
  | '+' :: rest => (false, rest)
  | text => (false, text)

def readExponent : List Char → Option Int
  | [] => some 0
  | c :: rest =>
    if c = 'e' ∨ c = 'E' then
      let (negative, rest) := splitSign rest
      if rest ≠ [] ∧ rest.all isDecimal then
        let size : Int := ofDecimal rest
        some (if negative then -size else size)
      else none
    else none

/-- Reads an unsigned numeral: digits with a point before, among or after them, at least one, and
an optional power of ten. -/
def readUnsigned (text : List Char) : Option (Nat × Int) :=
  let whole := text.takeWhile isDecimal
  let afterWhole := text.dropWhile isDecimal
  let (fraction, tail) := match afterWhole with
    | '.' :: rest => (rest.takeWhile isDecimal, rest.dropWhile isDecimal)
    | rest => ([], rest)
  if whole = [] ∧ fraction = [] then none
  else (readExponent tail).map fun power =>
    (ofDecimal (whole ++ fraction), power - (fraction.length : Int))

def readNumeral (text : List Char) : Option Numeral :=
  let (negative, rest) := splitSign text
  (readUnsigned rest).map fun (significand, exponent) => ⟨negative, significand, exponent⟩

def readNamed (text : List Char) : Option Float :=
  let (negative, rest) := splitSign text
  let name := String.ofList (rest.map Char.toLower)
  let size := if name = "inf" ∨ name = "infinity" then some infinity
    else if name = "nan" then some nan
    else none
  size.map fun x => if negative then -x else x

def readFloat (text : List Char) : Option Float :=
  ((readNumeral text).map Numeral.toFloat).or (readNamed text)

end Decimal

end Abac
