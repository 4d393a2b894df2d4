import Abac.Decimal

/-!
The shortest decimal that reads back as a given binary number. A binary number `m · 2 ^ q` is the
nearest one to every real between its two rounding boundaries, so the search takes the decimal
grids with one, two, and more significant digits in turn, looks at the two neighbours of the number
on each, and stops at the first grid with a neighbour between the boundaries.
-/
namespace Abac.Decimal

/-- A positive binary number together with the reals that round to it, in quarter units: the number
is `4 · significand`, its boundaries lie `below` and 2 away, all times `2 ^ exponent / 4`. -/
structure Binary where
  significand : Nat
  exponent : Int
  below : Nat
deriving Repr, DecidableEq

def leastNormal : Nat := 0x10000000000000

def signBit : Nat := 0x8000000000000000

/-- Reads a positive finite number off its bits. The boundary below a power of two is nearer,
unless the number is the least of its size. -/
def Binary.ofBits (bits : Nat) : Binary :=
  let fraction : Nat := bits % leastNormal
  let biased : Nat := bits / leastNormal % 0x800
  if biased = 0 then ⟨fraction, -1074, 2⟩
  else ⟨leastNormal + fraction, (biased : Int) - 1075, if fraction = 0 ∧ 1 < biased then 1 else 2⟩

structure Ratio where
  num : Nat
  den : Nat

def quarters (n : Nat) (exponent : Int) : Ratio :=
  if exponent < 0 then ⟨n, 4 * Nat.pow 2 exponent.natAbs⟩
  else ⟨n * Nat.pow 2 exponent.natAbs, 4⟩

namespace Ratio

def lt (a b : Ratio) : Bool := a.num * b.den < b.num * a.den

def scaled (n : Nat) (exponent : Int) : Ratio :=
  if exponent < 0 then ⟨n, Nat.pow 10 exponent.natAbs⟩
  else ⟨n * Nat.pow 10 exponent.natAbs, 1⟩

def gridFloor (a : Ratio) (exponent : Int) : Nat :=
  if exponent < 0 then a.num * Nat.pow 10 exponent.natAbs / a.den
  else a.num / (a.den * Nat.pow 10 exponent.natAbs)

def distance (a b : Ratio) : Ratio :=
  let left := a.num * b.den
  let right := b.num * a.den
  ⟨if left < right then right - left else left - right, a.den * b.den⟩

end Ratio

namespace Binary

def value (x : Binary) : Ratio := quarters (4 * x.significand) x.exponent

/-- Whether a real rounds to `x`: it lies between the boundaries, or on one when the significand
is even. -/
def Captures (x : Binary) (r : Ratio) : Bool :=
  let lower := quarters (4 * x.significand - x.below) x.exponent
  let upper := quarters (4 * x.significand + 2) x.exponent
  if x.significand % 2 = 0 then !r.lt lower && !upper.lt r else lower.lt r && r.lt upper

def climbPower (x : Binary) : Nat → Int → Int
  | 0, guess => guess
  | fuel + 1, guess =>
    if x.value.gridFloor (guess + 1) = 0 then guess else climbPower x fuel (guess + 1)

/-- The power of ten of the leading digit. The guess takes 0.30103 for the logarithm of two, which
is off by less than one over the exponents that occur, and starts one below. -/
def leadingPower (x : Binary) : Int :=
  x.climbPower 4 (((Nat.log2 x.significand : Int) + x.exponent) * 30103 / 100000 - 1)

/-- The neighbour of `x` that reads back as `x` on the grid of multiples of `10 ^ exponent`: of two
the nearer one, and the even one if both are equally near. -/
def onGrid (x : Binary) (exponent : Int) : Option Nat :=
  let down := x.value.gridFloor exponent
  let up := down + 1
  let low := Ratio.scaled down exponent
  let high := Ratio.scaled up exponent
  match x.Captures low && 0 < down, x.Captures high with
  | false, false => none
  | true, false => some down
  | false, true => some up
  | true, true =>
    let toLow := x.value.distance low
    let toHigh := x.value.distance high
    if toLow.lt toHigh then some down
    else if toHigh.lt toLow then some up
    else some (if down % 2 = 0 then down else up)

def search (x : Binary) : Nat → Int → Nat × Int
  | 0, exponent => (x.value.gridFloor exponent, exponent)
  | fuel + 1, exponent =>
    match x.onGrid exponent with
    | some digits => (digits, exponent)
    | none => search x fuel (exponent - 1)

def shortest (x : Binary) : Nat × Int := x.search 18 (x.leadingPower + 1)

end Binary

def shortest (x : Float) : Nat × Int := (Binary.ofBits x.toBits.toNat).shortest

end Abac.Decimal
