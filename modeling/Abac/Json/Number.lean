import Abac.Json

/-!
The number tokens of JSON text: what they look like, and the number each of them denotes. A token
without point and exponent that fits in 64 bits is an integer. Any other token has a significand,
the longest start of its digits that fits in 64 bits, and that significand is rounded to a binary
number and then multiplied or divided by a power of ten.
-/
namespace Abac.Json.Token

open Decimal

structure NumberParts where
  negative : Bool
  whole : List Char
  /-- The digits after the point, if there is one. -/
  fraction : Option (List Char)
  /-- The sign and the digits of the power of ten, if there is one; the flag is set for a minus. -/
  power : Option (Bool × List Char)

def significandBound : Nat := 0x10000000000000000

/-- Reads the digits of a significand that still fit. Of those before the point the others are
counted, since they scale the number; those after the point only count when they are taken. -/
structure Significand where
  value : Nat := 0
  dropped : Nat := 0
  places : Nat := 0
  full : Bool := false

namespace Significand

def addWhole (s : Significand) (digit : Nat) : Significand :=
  if s.dropped = 0 ∧ s.value * 10 + digit < significandBound then
    { s with value := s.value * 10 + digit }
  else { s with dropped := s.dropped + 1 }

def addFraction (s : Significand) (digit : Nat) : Significand :=
  if !s.full ∧ s.value * 10 + digit < significandBound then
    { s with value := s.value * 10 + digit, places := s.places + 1 }
  else { s with full := true }

def ofParts (whole fraction : List Char) : Significand :=
  let s := (whole.filterMap Digits.decimal?).foldl addWhole {}
  (fraction.filterMap Digits.decimal?).foldl addFraction s

end Significand

def greatestPower : Nat := 308

/-- `significand · 10 ^ exponent`, the significand rounded first. The result is `none` when it is
too large for a binary number. -/
def scale (significand : Nat) (exponent : Int) : Option Float :=
  let size := nearest significand 0
  if 0 ≤ exponent then
    if significand = 0 then some 0.0
    else if (greatestPower : Int) < exponent then none
    else
      let x := size * nearest 1 exponent
      if x.isInf then none else some x
  else if -(greatestPower : Int) ≤ exponent then some (size / nearest 1 (-exponent))
  else if -(2 * greatestPower : Int) ≤ exponent then
    some (size / nearest 1 greatestPower / nearest 1 (-exponent - greatestPower))
  else some 0.0

def exponentBound : Nat := 0x80000000

def NumberParts.size (parts : NumberParts) : Option Float :=
  let s := Significand.ofParts parts.whole (parts.fraction.getD [])
  let start : Int := (s.dropped : Int) - s.places
  match parts.power with
  | none => scale s.value start
  | some (negative, digits) =>
    let power := Digits.ofDecimal digits
    if exponentBound ≤ power then
      if s.value ≠ 0 ∧ !negative then none else some 0.0
    else scale s.value (if negative then start - power else start + power)

/-- The number that the parts denote; `none` when it is too large. -/
def NumberParts.number? (parts : NumberParts) : Option Number :=
  let n := Digits.ofDecimal parts.whole
  if parts.fraction.isNone ∧ parts.power.isNone ∧ !parts.negative ∧ n < significandBound then
    some (.integer n)
  else if parts.fraction.isNone ∧ parts.power.isNone ∧ parts.negative ∧ 0 < n ∧
      n ≤ Digits.wordBound then
    some (.integer (-(n : Int)))
  else parts.size.map fun x => .decimal (if parts.negative then -x else x)

end Abac.Json.Token
