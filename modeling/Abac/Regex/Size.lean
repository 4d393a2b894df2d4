import Abac.Regex.Node

/-!
The size of the machine that an expression is compiled to, in bytes. The machine reads the bytes of
the UTF-8 form of a text. A set of characters becomes a tree of ranges of bytes, which shares the
beginnings of its branches, and a repetition is written out.
-/
namespace Abac.Regex

def stateSize : Nat := 32

/-- The numbers from `low` to `high` as runs of digits in base 64, `rest` digits behind the first.
Each run allows a range at every digit, independently of the others. -/
def digitRuns : (rest : Nat) → (low high : Nat) → List (List (Nat × Nat))
  | 0, low, high => [[(low, high)]]
  | rest + 1, low, high =>
    let unit := Nat.pow 64 (rest + 1)
    let first := low / unit
    let last := high / unit
    let isStart : Bool := low % unit = 0
    let isEnd : Bool := high % unit = unit - 1
    let within (digit low high : Nat) : List (List (Nat × Nat)) :=
      (digitRuns rest low high).map ((digit, digit) :: ·)
    if first = last && !(isStart && isEnd) then within first (low % unit) (high % unit)
    else
      let before := if isStart then [] else within first (low % unit) (unit - 1)
      let after := if isEnd then [] else within last 0 (high % unit)
      let first := if isStart then first else first + 1
      let last := if isEnd then last else last - 1
      before ++ (if first ≤ last then [(first, last) :: List.replicate (rest + 1) (0, 63)] else []) ++
        after

/-- The ranges of code points with UTF-8 forms of one length: the first and the last of them, how
many bytes stand behind the first byte, and the least first byte. -/
def utf8Lengths : List (Nat × Nat × Nat × Nat) :=
  [(0, 0x7F, 0, 0), (0x80, 0x7FF, 1, 0xC0), (0x800, 0xD7FF, 2, 0xE0), (0xE000, 0xFFFF, 2, 0xE0),
    (0x10000, 0x10FFFF, 3, 0xF0)]

def utf8Runs (range : Nat × Nat) : List (List (Nat × Nat)) :=
  utf8Lengths.flatMap fun (least, greatest, rest, lead) =>
    let low := max range.1 least
    let high := min range.2 greatest
    if low ≤ high then
      (digitRuns rest low high).map fun run =>
        match run with
        | [] => []
        | (first, last) :: rest => (lead + first, lead + last) :: rest
    else []

def commonLength : List (Nat × Nat) → List (Nat × Nat) → Nat
  | a :: as, b :: bs => if a = b then commonLength as bs + 1 else 0
  | _, _ => 0

def treeNodes (previous : List (Nat × Nat)) : List (List (Nat × Nat)) → Nat
  | [] => 0
  | run :: rest => run.length - commonLength previous run + treeNodes run rest

/-- The size of the part for a set. A single character has a state for each of its bytes, and a set
of ASCII characters one state for all. -/
def setSize (set : CharSet) : Nat :=
  let ranges := set.ranges.toList
  let runs := ranges.flatMap utf8Runs
  match ranges with
  | [] => stateSize
  | [(first, last)] =>
    if first = last then stateSize * runs.flatten.length
    else if last < 0x80 then 2 * stateSize + 8
    else stateSize * (2 + treeNodes [] runs) + 4 * runs.length
  | ranges =>
    if ranges.all fun range => range.2 < 0x80 then 2 * stateSize + 8 * ranges.length
    else stateSize * (2 + treeNodes [] runs) + 4 * runs.length

def forkSize : Nat := stateSize + 8

def repeatedSize (inner least : Nat) : (most : Option Nat) → Nat
  | none => inner * max 1 least + forkSize
  | some most =>
    if most = 0 then stateSize
    else if least = most then inner * least
    else max stateSize (inner * least) + (inner + forkSize) * (most - least) + stateSize

namespace Node

mutual

def isWidthless : Node → Bool
  | .empty | .flags | .look _ => true
  | .one _ | .bracket _ => false
  | .repeated inner _ most => most = some 0 || inner.isWidthless
  | .group _ inner => inner.isWidthless
  | .sequence parts => areWidthless parts
  | .alternatives parts => areWidthless parts

def areWidthless : List Node → Bool
  | [] => true
  | part :: rest => part.isWidthless && areWidthless rest

end

mutual

/-- The size of the machine for a tree. To repeat what matches only the empty text more than once
makes no difference. -/
def size : Node → Nat
  | .empty | .look _ => stateSize
  | .flags => 0
  | .one set | .bracket set => setSize set
  | .repeated inner least most =>
    if inner.isWidthless then repeatedSize inner.size (min least 1) (some (min (most.getD 1) 1))
    else repeatedSize inner.size least most
  | .group .plain inner => inner.size
  | .group _ inner => inner.size + 2 * stateSize
  | .sequence parts => sizeAll parts
  | .alternatives parts => sizeAll parts + 2 * stateSize + 4 * parts.length

def sizeAll : List Node → Nat
  | [] => 0
  | part :: rest => part.size + sizeAll rest

end

end Node

end Abac.Regex
