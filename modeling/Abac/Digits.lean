/-!
Decimal and hexadecimal digits: the number that a run of digits denotes, and the digits of a
number.
-/
namespace Abac.Digits

def decimal? (c : Char) : Option Nat :=
  if '0' ≤ c ∧ c ≤ '9' then some (c.toNat - '0'.toNat) else none

def hex? (c : Char) : Option Nat :=
  if '0' ≤ c ∧ c ≤ '9' then some (c.toNat - '0'.toNat)
  else if 'a' ≤ c ∧ c ≤ 'f' then some (c.toNat - 'a'.toNat + 10)
  else if 'A' ≤ c ∧ c ≤ 'F' then some (c.toNat - 'A'.toNat + 10)
  else none

def isDecimal (c : Char) : Bool := (decimal? c).isSome

def isHex (c : Char) : Bool := (hex? c).isSome

def toNat (base : Nat) (digits : List Nat) : Nat := digits.foldl (fun n d => n * base + d) 0

/-- The number that decimal digits denote, other characters being passed over. -/
def ofDecimal (digits : List Char) : Nat := toNat 10 (digits.filterMap decimal?)

def ofHex (digits : List Char) : Nat := toNat 16 (digits.filterMap hex?)

def char (digit : Nat) : Char :=
  if digit < 10 then Char.ofNat ('0'.toNat + digit) else Char.ofNat ('a'.toNat + (digit - 10))

def prepend (base : Nat) : Nat → Nat → List Char → List Char
  | 0, _, tail => tail
  | fuel + 1, n, tail =>
    let tail := char (n % base) :: tail
    if n < base then tail else prepend base fuel (n / base) tail

def ofNat (n : Nat) : List Char := prepend 10 (n + 1) n []

def hexOfNat (n : Nat) : List Char := prepend 16 (n + 1) n []

def padTo (width : Nat) (digits : List Char) : List Char :=
  List.replicate (width - digits.length) '0' ++ digits

def wordBound : Int := 0x8000000000000000

def isWord (n : Int) : Bool := -wordBound ≤ n && n < wordBound

def textOfInt (n : Int) : String :=
  if n < 0 then String.ofList ('-' :: ofNat n.natAbs) else String.ofList (ofNat n.natAbs)

end Abac.Digits
