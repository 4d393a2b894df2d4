import Abac.Character

/-!
No blank is a letter or a number (`isAlphanumeric_of_isBlank`). The set of the letters and numbers
is a union of tables, so it holds a code point only if the ranges of one of its tables do; and each
table is searched once for the blanks while its text is read.
-/
namespace Abac

namespace CharSet

def Holds (ranges : List (Nat × Nat)) (point : Nat) : Prop :=
  ∃ range ∈ ranges, range.1 ≤ point ∧ point ≤ range.2

def Avoids (points : List Nat) (set : CharSet) : Prop :=
  ∀ point ∈ points, ¬Holds set.ranges.toList point

theorem holds_of_searchRanges {ranges : Array (Nat × Nat)} {point lo hi : Nat}
    (h : searchRanges ranges point lo hi = true) : Holds ranges.toList point := by
  fun_induction searchRanges ranges point lo hi with
  | case1 => cases h
  | case2 lo hi hlt mid first last hget hbefore ih => exact ih h
  | case3 lo hi hlt mid first last hget hbefore hafter ih => exact ih h
  | case4 lo hi hlt mid first last hget hbefore hafter =>
    have hmem : (first, last) ∈ ranges.toList := by
      rw [Array.mem_toList_iff]
      exact Array.mem_of_getElem? hget
    exact ⟨(first, last), hmem, Nat.le_of_not_lt hbefore, Nat.le_of_not_lt hafter⟩
  | case5 => cases h

/-- Joining ranges adds no point: what lies in a joined range lies in one of its parts. -/
theorem holds_of_joinRanges_go {lo hi point : Nat} {ranges : List (Nat × Nat)}
    (h : Holds (joinRanges.go lo hi ranges) point) : Holds ((lo, hi) :: ranges) point := by
  induction ranges generalizing lo hi with
  | nil => exact h
  | cons range rest ih =>
    obtain ⟨lo', hi'⟩ := range
    rw [joinRanges.go] at h
    split at h
    · next htouch =>
      obtain ⟨range, hrange, hpoint⟩ := ih h
      rcases List.mem_cons.mp hrange with rfl | hrest
      · by_cases hleft : point ≤ hi
        · exact ⟨(lo, hi), List.mem_cons_self, hpoint.1, hleft⟩
        · refine ⟨(lo', hi'), by simp, ?_, ?_⟩ <;> simp only at hpoint ⊢ <;> omega
      · exact ⟨range, by simp [hrest], hpoint⟩
    · obtain ⟨range, hrange, hpoint⟩ := h
      rcases List.mem_cons.mp hrange with rfl | hrest
      · exact ⟨_, List.mem_cons_self, hpoint⟩
      · obtain ⟨range, hrange, hpoint⟩ := ih ⟨range, hrest, hpoint⟩
        exact ⟨range, List.mem_cons_of_mem _ hrange, hpoint⟩

theorem holds_of_ofRanges {ranges : List (Nat × Nat)} {point : Nat}
    (h : Holds (ofRanges ranges).ranges.toList point) : Holds ranges point := by
  have hjoined : ∀ sorted : List (Nat × Nat), Holds (joinRanges sorted) point →
      Holds sorted point := by
    intro sorted hsorted
    cases sorted with
    | nil => exact hsorted
    | cons range rest => exact holds_of_joinRanges_go hsorted
  obtain ⟨range, hrange, hpoint⟩ := hjoined _ h
  rw [List.mem_mergeSort, List.mem_filter] at hrange
  exact ⟨range, hrange.1, hpoint⟩

theorem avoids_unionAll {points : List Nat} {sets : List CharSet}
    (h : ∀ set ∈ sets, set.Avoids points) : (unionAll sets).Avoids points := by
  intro point hpoint hholds
  obtain ⟨range, hrange, hrangePoint⟩ := holds_of_ofRanges hholds
  obtain ⟨set, hset, hrange⟩ := List.mem_flatMap.mp hrange
  exact h set hset point hpoint ⟨range, hrange, hrangePoint⟩

theorem avoids_union {points : List Nat} {a b : CharSet} (ha : a.Avoids points)
    (hb : b.Avoids points) : (a.union b).Avoids points := by
  intro point hpoint hholds
  obtain ⟨range, hrange, hrangePoint⟩ := holds_of_ofRanges hholds
  rcases List.mem_append.mp hrange with hrange | hrange
  · exact ha point hpoint ⟨range, hrange, hrangePoint⟩
  · exact hb point hpoint ⟨range, hrange, hrangePoint⟩

theorem contains_eq_false {points : List Nat} {set : CharSet} (h : set.Avoids points) {c : Char}
    (hc : c.toNat ∈ points) : set.contains c = false := by
  rw [← Bool.not_eq_true]
  exact fun hcontains => h c.toNat hc (holds_of_searchRanges hcontains)

def rangeClear (points : List Nat) (start : Option Nat) (last : Nat) : Bool :=
  points.all fun point => point < start.getD last || last < point

/-- Whether every range of a table avoids the points, tested while the text of the table is read.
The numbers being read are handed on in the open, so that evaluation never piles them up. -/
def textClear (points : List Nat) : List Char → (start number : Option Nat) → Bool
  | [], start, number => number.all (rangeClear points start)
  | c :: rest, start, number =>
    match Digits.hex? c with
    | some digit => textClear points rest start (some (number.getD 0 * 16 + digit))
    | none =>
      if c = '-' then textClear points rest number none
      else
        match number with
        | none => textClear points rest start none
        | some last => rangeClear points start last && textClear points rest none none

theorem not_holds_cons {points : List Nat} {ranges : List (Nat × Nat)} {start : Option Nat}
    {last : Nat} (hranges : ∀ point ∈ points, ¬Holds ranges point)
    (hclear : rangeClear points start last = true) :
    ∀ point ∈ points, ¬Holds ((start.getD last, last) :: ranges) point := by
  rintro point hpoint ⟨range, hrange, hrangePoint⟩
  rcases List.mem_cons.mp hrange with rfl | hrest
  · have hout := List.all_eq_true.mp hclear point hpoint
    simp only [Bool.or_eq_true, decide_eq_true_eq] at hout hrangePoint
    omega
  · exact hranges point hpoint ⟨range, hrest, hrangePoint⟩

theorem not_holds_of_textClear {points : List Nat} {text : List Char}
    {ranges : List (Nat × Nat)} {start number : Option Nat}
    (hranges : ∀ point ∈ points, ¬Holds ranges point)
    (hclear : textClear points text start number = true) :
    ∀ point ∈ points,
      ¬Holds (text.foldl Reading.step ⟨ranges, start, number⟩).close.ranges point := by
  induction text generalizing ranges start number with
  | nil =>
    cases number with
    | none => exact hranges
    | some last => exact not_holds_cons hranges hclear
  | cons c rest ih =>
    unfold textClear at hclear
    rw [List.foldl_cons, Reading.step]
    cases hdigit : Digits.hex? c with
    | some digit =>
      rw [hdigit] at hclear
      exact ih hranges hclear
    | none =>
      rw [hdigit] at hclear
      by_cases hdash : c = '-'
      · simp only [if_pos hdash] at hclear ⊢
        exact ih hranges hclear
      · simp only [if_neg hdash] at hclear ⊢
        cases number with
        | none => exact ih hranges hclear
        | some last =>
          rw [Bool.and_eq_true] at hclear
          exact ih (not_holds_cons hranges hclear.1) hclear.2

theorem avoids_ofText {points : List Nat} (text : List Char)
    (h : textClear points text none none = true) :
    (ofText (String.ofList text)).Avoids points := by
  intro point hpoint
  have hnone : ∀ point ∈ points, ¬Holds [] point := by
    rintro point - ⟨range, hrange, -⟩
    cases hrange
  obtain hclear := not_holds_of_textClear hnone h point hpoint
  rintro ⟨range, hrange, hrangePoint⟩
  rw [ofText, String.toList_ofList, List.toList_toArray, List.mem_reverse] at hrange
  exact hclear ⟨range, hrange, hrangePoint⟩

end CharSet

def wideBlanks : List Nat :=
  [0x85, 0xA0, 0x1680, 0x2000, 0x2001, 0x2002, 0x2003, 0x2004, 0x2005, 0x2006, 0x2007, 0x2008,
    0x2009, 0x200A, 0x2028, 0x2029, 0x202F, 0x205F, 0x3000]

namespace Unicode

open CharSet

def alphanumericTables : List CharSet :=
  [uppercaseLetter, lowercaseLetter, titlecaseLetter, modifierLetter, otherLetter, letterNumber,
    otherAlphabetic, decimalNumber, otherNumber]

set_option maxRecDepth 100000 in
theorem alphanumericTables_avoid : ∀ table ∈ alphanumericTables, table.Avoids wideBlanks := by
  simp only [alphanumericTables, List.forall_mem_cons]
  refine ⟨?_, ?_, ?_, ?_, ?_, ?_, ?_, ?_, ?_, ?_⟩
  iterate 9 exact avoids_ofText _ (by decide +kernel)
  simp

theorem alphanumeric_avoids : alphanumeric.Avoids wideBlanks := by
  have htables := alphanumericTables_avoid
  simp only [alphanumericTables, List.forall_mem_cons] at htables
  obtain ⟨hupper, hlower, htitle, hmodifier, hletter, hletterNumber, halphabetic, hdecimal,
    hnumber, -⟩ := htables
  have hcased : casedLetter.Avoids wideBlanks := avoids_unionAll (by simp [*])
  have hletters : letter.Avoids wideBlanks := avoids_unionAll (by simp [*])
  have halphabetics : alphabetic.Avoids wideBlanks := avoids_unionAll (by simp [*])
  have hnumbers : number.Avoids wideBlanks := avoids_unionAll (by simp [*])
  exact avoids_union halphabetics hnumbers

end Unicode

def narrowBlanks : List Nat := [0x9, 0xA, 0xB, 0xC, 0xD, 0x20]

theorem toNat_mem_of_isBlank {c : Char} (h : isBlank c = true) :
    c.toNat < 0x80 ∧ c.toNat ∈ narrowBlanks ∨ ¬c.toNat < 0x80 ∧ c.toNat ∈ wideBlanks := by
  simp only [isBlank, Bool.or_eq_true, Bool.and_eq_true, decide_eq_true_eq] at h
  simp only [narrowBlanks, wideBlanks, List.mem_cons, List.not_mem_nil, or_false]
  omega

/-- No blank is a letter or a number. -/
theorem isAlphanumeric_of_isBlank {c : Char} (h : isBlank c = true) : isAlphanumeric c = false := by
  rw [isAlphanumeric]
  rcases toNat_mem_of_isBlank h with ⟨hnarrow, hmem⟩ | ⟨hwide, hmem⟩
  · have hnarrowBlanks : ∀ n ∈ narrowBlanks,
        (isAsciiLetter (Char.ofNat n) || Digits.isDecimal (Char.ofNat n)) = false := by
      decide
    rw [if_pos hnarrow, ← hnarrowBlanks c.toNat hmem, Char.ofNat_toNat]
  · rw [if_neg hwide]
    exact CharSet.contains_eq_false Unicode.alphanumeric_avoids hmem

end Abac
