import Abac.CharSet

/-!
Letters that differ in case only, by the simple case folding of Unicode 17. Most of them come in
pairs at a fixed distance; the few larger classes are listed in full.
-/
namespace Abac.Unicode

/-- Characters whose partner in case lies `distance` above them: every `stride`-th code point of
the ranges in `members`, from the start of each. -/
structure CasePairs where
  distance : Nat
  stride : Nat
  members : String

def casePairs : List CasePairs := [
  ⟨0x1, 1, "187 18b 191 198 1a7 1ac 1af 1b8 1bc 1f4 23b 241 376 3f7 3fa 460 1c89 2183 2c60 2c72 2c75 2cf2
    a78b a7f5 fb05"⟩,
  ⟨0x1, 2, "100-12e 132-136 139-147 14a-176 179-17d 182-184 1a0-1a4 1b3-1b5 1cd-1db 1de-1ee 1f8-21e
    222-232 246-24e 370-372 3d8-3ee 464-480 48a-4be 4c1-4cd 4d0-52e 1e00-1e5e 1e62-1e94 1ea0-1efe
    2c67-2c6b 2c80-2ce2 2ceb-2ced a640-a648 a64c-a66c a680-a69a a722-a72e a732-a76e a779-a77b
    a77e-a786 a790-a792 a796-a7a8 a7b4-a7c2 a7c7-a7c9 a7cc-a7da"⟩,
  ⟨0x7, 1, "3f2 1fe5"⟩,
  ⟨0x8, 1, "3cf 13f0-13f5 1f00-1f07 1f10-1f15 1f20-1f27 1f30-1f37 1f40-1f45 1f51 1f53 1f55 1f57 1f60-1f67
    1f80-1f87 1f90-1f97 1fa0-1fa7 1fb0-1fb1 1fd0-1fd1 1fe0-1fe1"⟩,
  ⟨0x9, 1, "1fb3 1fc3 1ff3"⟩,
  ⟨0xf, 1, "4c0"⟩,
  ⟨0x10, 1, "2160-216f"⟩,
  ⟨0x1a, 1, "24b6-24cf"⟩,
  ⟨0x1b, 1, "16ea0-16eb8"⟩,
  ⟨0x1c, 1, "2132"⟩,
  ⟨0x20, 1, "41-4a 4c-52 54-5a c0-c4 c6-d6 d8-de 391 393-394 396-397 39b 39d-39f 3a4-3a5 3a7-3a8 3aa-3ab
    410-411 413 415-41d 41f-420 423-429 42b-42f ff21-ff3a 10d50-10d65 118a0-118bf 16e40-16e5f"⟩,
  ⟨0x22, 1, "1e900-1e921"⟩,
  ⟨0x25, 1, "388-38a"⟩,
  ⟨0x26, 1, "386"⟩,
  ⟨0x27, 1, "10570-1057a 1057c-1058a 1058c-10592 10594-10595"⟩,
  ⟨0x28, 1, "10400-10427 104b0-104d3"⟩,
  ⟨0x30, 1, "531-556 2c00-2c2f a794"⟩,
  ⟨0x38, 1, "1bf"⟩,
  ⟨0x3f, 1, "38e-38f"⟩,
  ⟨0x40, 1, "38c 10c80-10cb2"⟩,
  ⟨0x45, 1, "244"⟩,
  ⟨0x47, 1, "245"⟩,
  ⟨0x4a, 1, "1f70-1f71"⟩,
  ⟨0x4f, 1, "18e"⟩,
  ⟨0x50, 1, "400-40f"⟩,
  ⟨0x56, 1, "1f72-1f75"⟩,
  ⟨0x61, 1, "195"⟩,
  ⟨0x64, 1, "1f76-1f77"⟩,
  ⟨0x70, 1, "1f7a-1f7b"⟩,
  ⟨0x74, 1, "37f"⟩,
  ⟨0x79, 1, "ff"⟩,
  ⟨0x7e, 1, "1f7c-1f7d"⟩,
  ⟨0x80, 1, "1f78-1f79"⟩,
  ⟨0x82, 1, "19e 37b-37d"⟩,
  ⟨0xa3, 1, "19a"⟩,
  ⟨0xc3, 1, "180"⟩,
  ⟨0xca, 1, "18f"⟩,
  ⟨0xcb, 1, "190"⟩,
  ⟨0xcd, 1, "189-18a 193"⟩,
  ⟨0xce, 1, "186"⟩,
  ⟨0xcf, 1, "194"⟩,
  ⟨0xd1, 1, "197"⟩,
  ⟨0xd2, 1, "181"⟩,
  ⟨0xd3, 1, "196 19c"⟩,
  ⟨0xd5, 1, "19d"⟩,
  ⟨0xd6, 1, "19f"⟩,
  ⟨0xd9, 1, "1b1-1b2"⟩,
  ⟨0xda, 1, "1a6 1a9 1ae"⟩,
  ⟨0xdb, 1, "1b7"⟩,
  ⟨0x3a0, 1, "a7b3"⟩,
  ⟨0xbc0, 1, "10d0-10fa 10fd-10ff"⟩,
  ⟨0xee6, 1, "1d7d"⟩,
  ⟨0x1c33, 1, "3b0"⟩,
  ⟨0x1c43, 1, "390"⟩,
  ⟨0x1c60, 1, "10a0-10c5 10c7 10cd"⟩,
  ⟨0x1dbf, 1, "df"⟩,
  ⟨0x29e7, 1, "27d"⟩,
  ⟨0x29f7, 1, "26b"⟩,
  ⟨0x29fd, 1, "271"⟩,
  ⟨0x2a1c, 1, "251"⟩,
  ⟨0x2a1e, 1, "252"⟩,
  ⟨0x2a1f, 1, "250"⟩,
  ⟨0x2a28, 1, "23e"⟩,
  ⟨0x2a2b, 1, "23a"⟩,
  ⟨0x2a3f, 1, "23f-240"⟩,
  ⟨0x8a04, 1, "1d79"⟩,
  ⟨0x8a38, 1, "1d8e"⟩,
  ⟨0x97d0, 1, "13a0-13ef"⟩,
  ⟨0xa512, 1, "29e"⟩,
  ⟨0xa515, 1, "29d"⟩,
  ⟨0xa528, 1, "265"⟩,
  ⟨0xa52a, 1, "287"⟩,
  ⟨0xa541, 1, "26c"⟩,
  ⟨0xa543, 1, "282"⟩,
  ⟨0xa544, 1, "266 26a"⟩,
  ⟨0xa54b, 1, "261"⟩,
  ⟨0xa54f, 1, "25c"⟩,
  ⟨0xa567, 1, "264"⟩,
  ⟨0xa641, 1, "19b"⟩]

def caseClasses : List (List Nat) := [
  [0x4b, 0x6b, 0x212a],
  [0x53, 0x73, 0x17f],
  [0xb5, 0x39c, 0x3bc],
  [0xc5, 0xe5, 0x212b],
  [0x1c4, 0x1c5, 0x1c6],
  [0x1c7, 0x1c8, 0x1c9],
  [0x1ca, 0x1cb, 0x1cc],
  [0x1f1, 0x1f2, 0x1f3],
  [0x345, 0x399, 0x3b9, 0x1fbe],
  [0x392, 0x3b2, 0x3d0],
  [0x395, 0x3b5, 0x3f5],
  [0x398, 0x3b8, 0x3d1, 0x3f4],
  [0x39a, 0x3ba, 0x3f0],
  [0x3a0, 0x3c0, 0x3d6],
  [0x3a1, 0x3c1, 0x3f1],
  [0x3a3, 0x3c2, 0x3c3],
  [0x3a6, 0x3c6, 0x3d5],
  [0x3a9, 0x3c9, 0x2126],
  [0x412, 0x432, 0x1c80],
  [0x414, 0x434, 0x1c81],
  [0x41e, 0x43e, 0x1c82],
  [0x421, 0x441, 0x1c83],
  [0x422, 0x442, 0x1c84, 0x1c85],
  [0x42a, 0x44a, 0x1c86],
  [0x462, 0x463, 0x1c87],
  [0x1c88, 0xa64a, 0xa64b],
  [0x1e60, 0x1e61, 0x1e9b]]

/-- One range of case pairs: the first and the last of every `stride`-th code point that has a
partner `distance` above it. -/
structure PairRange where
  first : Nat
  last : Nat
  stride : Nat
  distance : Nat

def pairRanges : List PairRange :=
  casePairs.flatMap fun pairs =>
    (CharSet.ofText pairs.members).ranges.toList.map fun (first, last) =>
      ⟨first, last, pairs.stride, pairs.distance⟩

/-- Every `stride`-th code point from `first` to `last` that lies in `[lo, hi]`, moved by `shift`. -/
def movedMeet (lo hi first last stride : Nat) (shift : Nat → Nat) : List (Nat × Nat) :=
  let start := if lo ≤ first then first else first + (lo - first + stride - 1) / stride * stride
  let stop := min hi last
  if start ≤ stop then
    if stride ≤ 1 then [(shift start, shift stop)]
    else (List.range ((stop - start) / stride + 1)).map fun i =>
      let point := shift (start + i * stride)
      (point, point)
  else []

def PairRange.partners (pairs : PairRange) (lo hi : Nat) : List (Nat × Nat) :=
  movedMeet lo hi pairs.first pairs.last pairs.stride (· + pairs.distance) ++
    movedMeet lo hi (pairs.first + pairs.distance) (pairs.last + pairs.distance) pairs.stride
      (· - pairs.distance)

def closeCase (set : CharSet) : CharSet :=
  let ranges := set.ranges.toList
  let paired := ranges.flatMap fun (lo, hi) => pairRanges.flatMap fun pairs => pairs.partners lo hi
  let grouped := (caseClasses.filter fun points => points.any set.containsPoint).flatMap fun points =>
    points.map fun point => (point, point)
  .ofRanges (ranges ++ paired ++ grouped)

end Abac.Unicode
