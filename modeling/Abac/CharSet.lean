import Abac.Digits

/-!
Sets of characters as increasing, disjoint, inclusive ranges of code points, with the set algebra
on them. Long-lived sets are written as text, ranges of hexadecimal code points between blanks,
such as `41-5a 61-7a aa`.
-/
namespace Abac

/-- Inclusive ranges of code points, increasing and with a gap between any two. -/
structure CharSet where
  ranges : Array (Nat × Nat)
deriving Repr, DecidableEq

namespace CharSet

def lastPoint : Nat := 0x10FFFF

def empty : CharSet := ⟨#[]⟩

instance : EmptyCollection CharSet := ⟨empty⟩
instance : Inhabited CharSet := ⟨empty⟩

def joinRanges : List (Nat × Nat) → List (Nat × Nat)
  | [] => []
  | (lo, hi) :: rest => go lo hi rest
where
  go (lo hi : Nat) : List (Nat × Nat) → List (Nat × Nat)
    | [] => [(lo, hi)]
    | (lo', hi') :: rest =>
      if lo' ≤ hi + 1 then go lo (max hi hi') rest else (lo, hi) :: go lo' hi' rest

def ofRanges (ranges : List (Nat × Nat)) : CharSet :=
  let proper := ranges.filter fun range => range.1 ≤ range.2
  ⟨(joinRanges (proper.mergeSort fun a b => a.1 ≤ b.1)).toArray⟩

def singleton (c : Char) : CharSet := ⟨#[(c.toNat, c.toNat)]⟩

def ofChars (chars : List Char) : CharSet := ofRanges (chars.map fun c => (c.toNat, c.toNat))

def all : CharSet := ⟨#[(0, lastPoint)]⟩

/-- Looks in `ranges[lo, hi)` for the range that holds `point`. -/
def searchRanges (ranges : Array (Nat × Nat)) (point lo hi : Nat) : Bool :=
  if lo < hi then
    let mid := (lo + hi) / 2
    match ranges[mid]? with
    | none => false
    | some (first, last) =>
      if point < first then searchRanges ranges point lo mid
      else if last < point then searchRanges ranges point (mid + 1) hi
      else true
  else false
termination_by hi - lo

def containsPoint (set : CharSet) (point : Nat) : Bool :=
  searchRanges set.ranges point 0 set.ranges.size

def contains (set : CharSet) (c : Char) : Bool := set.containsPoint c.toNat

def union (a b : CharSet) : CharSet := ofRanges (a.ranges.toList ++ b.ranges.toList)

def unionAll (sets : List CharSet) : CharSet := ofRanges (sets.flatMap fun set => set.ranges.toList)

def gaps (start : Nat) : List (Nat × Nat) → List (Nat × Nat)
  | [] => if start ≤ lastPoint then [(start, lastPoint)] else []
  | (lo, hi) :: rest =>
    if start < lo then (start, lo - 1) :: gaps (hi + 1) rest else gaps (hi + 1) rest

def complement (set : CharSet) : CharSet := ⟨(gaps 0 set.ranges.toList).toArray⟩

def inter (a b : CharSet) : CharSet := (a.complement.union b.complement).complement

def diff (a b : CharSet) : CharSet := (a.complement.union b).complement

def symmDiff (a b : CharSet) : CharSet := (a.diff b).union (b.diff a)

def isEmpty (set : CharSet) : Bool := set.ranges.isEmpty

/-- A set whose written form is being read: the ranges so far, newest first, the start of a range
whose end is being read, and the number being read. -/
structure Reading where
  ranges : List (Nat × Nat) := []
  start : Option Nat := none
  number : Option Nat := none

namespace Reading

def close (r : Reading) : Reading :=
  match r.number with
  | none => r
  | some last => { ranges := (r.start.getD last, last) :: r.ranges }

def step (r : Reading) (c : Char) : Reading :=
  match Digits.hex? c with
  | some digit => { r with number := some (r.number.getD 0 * 16 + digit) }
  | none => if c = '-' then { r with start := r.number, number := none } else r.close

end Reading

def ofText (text : String) : CharSet :=
  ⟨(text.toList.foldl Reading.step {}).close.ranges.reverse.toArray⟩

end CharSet

end Abac
