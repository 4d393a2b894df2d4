import Abac.Proofs.Rule.Locality.Tokens

/-!
Numbers with more behind them. The text of a number falls into a sign, digits, a point with digits
and a power of ten, and each of these stays what it is where more stands behind that does not go on
with it. An exception is the mark of a power of ten at the end of a text, which would take a sign
behind it; but no numeral ends in such a mark (`readNumeral_mark`), so a number that was read on its
own is read as well where an operator follows (`local_number`).
-/
namespace Abac.Rule

open Digits

variable {text rest more : List Char}

theorem splitOptional_append (hne : text ≠ []) (cs more : List Char) :
    splitOptional cs (text ++ more) =
      ((splitOptional cs text).1, (splitOptional cs text).2 ++ more) := by
  obtain ⟨c, behind, rfl⟩ := List.exists_cons_of_ne_nil hne
  rw [List.cons_append, splitOptional, splitOptional]
  split <;> rfl

theorem splitOptional_fst_append_snd (cs text : List Char) :
    (splitOptional cs text).1 ++ (splitOptional cs text).2 = text := by
  cases text with
  | nil => rfl
  | cons c text =>
    rw [splitOptional]
    split <;> rfl

def fractionAt (text : List Char) : List Char :=
  let (point, rest) := splitOptional ['.'] text
  point ++ if point = [] then [] else rest.takeWhile isDecimal

def powerAt (text : List Char) : List Char :=
  let (mark, rest) := splitOptional ['e', 'E'] text
  let (sign, rest) := if mark = [] then ([], []) else splitOptional ['+', '-'] rest
  mark ++ sign ++ rest.takeWhile isDecimal

theorem fractionAt_point (text : List Char) :
    fractionAt ('.' :: text) = '.' :: text.takeWhile isDecimal := rfl

theorem fractionAt_of_halts (h : Halts ['.'].contains text) : fractionAt text = [] := by
  rw [fractionAt, splitOptional_of_halts h]
  rfl

theorem powerAt_mark {c : Char} (hc : ['e', 'E'].contains c = true) (text : List Char) :
    powerAt (c :: text) = c :: ((splitOptional ['+', '-'] text).1 ++
      (splitOptional ['+', '-'] text).2.takeWhile isDecimal) := by
  rw [powerAt, splitOptional, if_pos hc]
  rfl

theorem powerAt_of_halts (h : Halts ['e', 'E'].contains text) : powerAt text = [] := by
  rw [powerAt, splitOptional_of_halts h]
  rfl

/-- The parts of the text of a number, and the texts that they stand in front of. -/
theorem exists_numberText_parts (text : List Char) :
    ∃ sign unsigned last, splitOptional ['-'] text = (sign, unsigned) ∧
      unsigned.dropWhile isDecimal = fractionAt (unsigned.dropWhile isDecimal) ++ last ∧
      numberText text = sign ++ (unsigned.takeWhile isDecimal ++
        (fractionAt (unsigned.dropWhile isDecimal) ++ powerAt last)) := by
  cases hsign : splitOptional ['-'] text with
  | mk sign unsigned =>
    cases hpoint : splitOptional ['.'] (unsigned.dropWhile isDecimal) with
    | mk point behind =>
      have hsplit := splitOptional_fst_append_snd ['.'] (unsigned.dropWhile isDecimal)
      rw [hpoint] at hsplit
      generalize hfraction : (if point = [] then [] else behind.takeWhile isDecimal) = fraction
      have hprefix : fraction ++ behind.drop fraction.length = behind := by
        rw [← hfraction]
        split
        · rfl
        · exact List.prefix_iff_eq_append.mp (List.takeWhile_prefix isDecimal)
      refine ⟨sign, unsigned, behind.drop fraction.length, rfl, ?_, ?_⟩
      · rw [fractionAt, hpoint]
        simp only [hfraction]
        rw [List.append_assoc, hprefix, hsplit]
      · simp only [numberText, hsign, hpoint, hfraction, fractionAt, powerAt, List.append_assoc]

/-- The point and its digits stay what they are where more stands behind that does not go on with
them. -/
theorem fractionAt_append (hsplit : text = fractionAt text ++ rest)
    (hmore : rest = [] → Halts goesOn more) : fractionAt (text ++ more) = fractionAt text := by
  cases text with
  | nil =>
    have hhalts := hmore (List.append_eq_nil_iff.mp hsplit.symm).2
    refine fractionAt_of_halts (halts_of_goesOn hhalts fun c hc => ?_)
    obtain rfl : c = '.' := by simpa using hc
    decide
  | cons c text =>
    by_cases hc : c = '.'
    · subst hc
      rw [fractionAt_point, List.cons_append] at hsplit
      have hrest : text.dropWhile isDecimal = rest := by
        have htext := (List.cons.inj hsplit).2
        rw [← List.append_cancel_left_eq (text.takeWhile isDecimal), ← htext,
          List.takeWhile_append_dropWhile]
      have hhalts : Halts isDecimal (text.dropWhile isDecimal ++ more) :=
        halts_dropWhile_append fun h => halts_isDecimal_of_goesOn (hmore (hrest ▸ h))
      rw [List.cons_append, fractionAt_point, fractionAt_point, (takeWhile_append_more hhalts).1]
    · have hhalts : ∀ behind, Halts ['.'].contains (c :: behind) :=
        fun behind => halts_cons (by simpa using hc)
      rw [List.cons_append, fractionAt_of_halts (hhalts _), fractionAt_of_halts (hhalts _)]

/-- A power of ten that is more than its mark stays what it is where more stands behind that does
not go on with its digits. -/
theorem powerAt_append (hsplit : text = powerAt text ++ rest) (hmark : ∀ c, powerAt text ≠ [c])
    (hmore : rest = [] → Halts goesOn more) : powerAt (text ++ more) = powerAt text := by
  cases text with
  | nil =>
    have hhalts := hmore (List.append_eq_nil_iff.mp hsplit.symm).2
    refine powerAt_of_halts (halts_of_goesOn hhalts fun c hc => ?_)
    have hc : c = 'e' ∨ c = 'E' := by simpa using hc
    rcases hc with rfl | rfl <;> decide
  | cons c text =>
    cases hc : ['e', 'E'].contains c with
    | true =>
      have hne : text ≠ [] := by
        intro heq
        subst heq
        exact hmark c (powerAt_mark hc [])
      cases hsign : splitOptional ['+', '-'] text with
      | mk sign digits =>
        have hall := splitOptional_fst_append_snd ['+', '-'] text
        have hlonger := splitOptional_append hne ['+', '-'] more
        have hpower := powerAt_mark hc text
        rw [hsign] at hall hlonger hpower
        have hrest : digits.dropWhile isDecimal = rest := by
          rw [hpower, List.cons_append, List.append_assoc] at hsplit
          have htext := (List.cons.inj hsplit).2
          rw [← hall, List.append_cancel_left_eq] at htext
          rw [← List.append_cancel_left_eq (digits.takeWhile isDecimal), ← htext,
            List.takeWhile_append_dropWhile]
        have hhalts : Halts isDecimal (digits.dropWhile isDecimal ++ more) :=
          halts_dropWhile_append fun h => halts_isDecimal_of_goesOn (hmore (hrest ▸ h))
        rw [List.cons_append, powerAt_mark hc, hlonger, hpower, (takeWhile_append_more hhalts).1]
    | false =>
      have hhalts : ∀ behind, Halts ['e', 'E'].contains (c :: behind) :=
        fun behind => halts_cons hc
      rw [List.cons_append, powerAt_of_halts (hhalts _), powerAt_of_halts (hhalts _)]

/-! ### A mark without a power -/

section Marks

open Decimal

variable {c : Char} (hc : c = 'e' ∨ c = 'E')

include hc

theorem exists_splitSign_mark (text : List Char) :
    ∃ negative unsigned, splitSign (text ++ [c]) = (negative, unsigned ++ [c]) := by
  have hsign : Halts ['-', '+'].contains [c] := by
    rcases hc with rfl | rfl <;> exact halts_cons (by decide)
  unfold splitSign
  split
  · next unsigned h =>
    cases text with
    | nil => exact absurd (hsign '-' (by rw [List.nil_append] at h; rw [h]; rfl)) (by decide)
    | cons d text => exact ⟨true, text, congrArg (true, ·) (List.cons.inj h).2.symm⟩
  · next unsigned h =>
    cases text with
    | nil => exact absurd (hsign '+' (by rw [List.nil_append] at h; rw [h]; rfl)) (by decide)
    | cons d text => exact ⟨false, text, congrArg (false, ·) (List.cons.inj h).2.symm⟩
  · exact ⟨false, text, rfl⟩

theorem readExponent_mark (text : List Char) : readExponent (text ++ [c]) = none := by
  have hdigit : isDecimal c = false := by
    rcases hc with rfl | rfl <;> rfl
  cases text with
  | nil =>
    rw [List.nil_append, readExponent, if_pos hc]
    rfl
  | cons d text =>
    obtain ⟨negative, unsigned, hsign⟩ := exists_splitSign_mark hc text
    have hall : ¬(unsigned ++ [c] ≠ [] ∧ (unsigned ++ [c]).all isDecimal = true) := by
      intro hboth
      obtain ⟨-, hall⟩ := hboth
      have hlast := List.all_eq_true.mp hall c (List.mem_append_right _ List.mem_cons_self)
      rw [hdigit] at hlast
      cases hlast
    rw [List.cons_append, readExponent]
    simp only [hsign, if_neg hall, ite_self]

/-- A numeral does not end in the mark of a power of ten. -/
theorem readNumeral_mark (text : List Char) : readNumeral (text ++ [c]) = none := by
  have hdigit : Halts isDecimal [c] := by
    rcases hc with rfl | rfl <;> exact halts_cons rfl
  have hafter : ∀ text : List Char,
      (text ++ [c]).dropWhile isDecimal = text.dropWhile isDecimal ++ [c] := fun text =>
    (takeWhile_append_more (halts_dropWhile_append fun _ => hdigit)).2
  obtain ⟨negative, unsigned, hsign⟩ := exists_splitSign_mark hc text
  rw [readNumeral, hsign]
  simp only [Option.map_eq_none_iff]
  rw [readUnsigned, hafter]
  generalize unsigned.dropWhile isDecimal = behind
  dsimp only
  split
  · next tail hpoint =>
    obtain ⟨last, rfl⟩ : ∃ last, tail = last ++ [c] := by
      cases behind with
      | nil =>
        rw [List.nil_append] at hpoint
        rcases hc with rfl | rfl <;> cases hpoint
      | cons d behind => exact ⟨behind, (List.cons.inj hpoint).2.symm⟩
    rw [hafter, readExponent_mark hc]
    exact ite_self none
  · rw [readExponent_mark hc]
    exact ite_self none

end Marks

theorem eq_of_powerAt {c : Char} {digits : List Char} (h : powerAt text = c :: digits) :
    c = 'e' ∨ c = 'E' := by
  cases text with
  | nil => cases h
  | cons d text =>
    cases hd : ['e', 'E'].contains d with
    | true =>
      rw [powerAt_mark hd] at h
      obtain ⟨rfl, -⟩ := List.cons.inj h
      simpa using hd
    | false =>
      rw [powerAt_of_halts (halts_cons hd)] at h
      cases h

/-- The text of a number that is one stays what it is where more stands behind that does not go on
with it. -/
theorem numberText_append_more {numeral : Numeral}
    (hread : Decimal.readNumeral (numberText text) = some numeral)
    (hsplit : text = numberText text ++ rest) (hmore : rest = [] → Halts goesOn more) :
    numberText (text ++ more) = numberText text := by
  have hne : text ≠ [] := by
    intro heq
    subst heq
    cases hread
  obtain ⟨sign, unsigned, last, hsign, hlast, hnumber⟩ := exists_numberText_parts text
  obtain ⟨sign', unsigned', last', hsign', hlast', hnumber'⟩ :=
    exists_numberText_parts (text ++ more)
  have htext := splitOptional_fst_append_snd ['-'] text
  have hlonger := splitOptional_append hne ['-'] more
  rw [hsign] at htext hlonger
  obtain ⟨rfl, rfl⟩ := Prod.mk.inj (hsign'.symm.trans hlonger)
  -- Each part ends before the text does, or nothing behind the text goes on with it.
  have hpower : last = powerAt last ++ rest := by
    have hunsigned : unsigned = unsigned.takeWhile isDecimal ++
        (fractionAt (unsigned.dropWhile isDecimal) ++ (powerAt last ++ rest)) := by
      rw [hnumber, ← htext, List.append_assoc, List.append_assoc, List.append_assoc,
        List.append_cancel_left_eq] at hsplit
      exact hsplit
    have hbehind := List.append_cancel_left (List.takeWhile_append_dropWhile.trans hunsigned)
    exact List.append_cancel_left (hlast.symm.trans hbehind)
  have hend : last = [] → Halts goesOn more := fun hnil =>
    hmore (List.append_eq_nil_iff.mp (hpower.symm.trans hnil)).2
  have hwhole : Halts isDecimal (unsigned.dropWhile isDecimal ++ more) :=
    halts_dropWhile_append fun hnil => halts_isDecimal_of_goesOn
      (hend (List.append_eq_nil_iff.mp (hlast.symm.trans hnil)).2)
  obtain ⟨htake, hdrop⟩ := takeWhile_append_more hwhole
  have hfraction := fractionAt_append hlast hend
  have hbehind : last' = last ++ more := by
    have hsame : fractionAt (unsigned.dropWhile isDecimal) ++ last' =
        fractionAt (unsigned.dropWhile isDecimal) ++ (last ++ more) := by
      rw [hdrop, hfraction] at hlast'
      rw [← hlast', ← List.append_assoc, ← hlast]
    exact List.append_cancel_left hsame
  have hmark : ∀ c, powerAt last ≠ [c] := by
    intro c hsingle
    have hc := eq_of_powerAt hsingle
    rw [hnumber, hsingle, ← List.append_assoc, ← List.append_assoc, readNumeral_mark hc] at hread
    cases hread
  rw [hnumber', htake, hdrop, hfraction, hbehind, powerAt_append hpower hmark hmore, hnumber]

theorem exists_powerAt_append (text : List Char) : ∃ rest, text = powerAt text ++ rest := by
  cases text with
  | nil => exact ⟨[], rfl⟩
  | cons c text =>
    cases hc : ['e', 'E'].contains c with
    | true =>
      have hall := splitOptional_fst_append_snd ['+', '-'] text
      refine ⟨(splitOptional ['+', '-'] text).2.dropWhile isDecimal, ?_⟩
      rw [powerAt_mark hc, List.cons_append, List.append_assoc, List.takeWhile_append_dropWhile,
        hall]
    | false => exact ⟨c :: text, by rw [powerAt_of_halts (halts_cons hc)]; rfl⟩

/-- The text of a number stands in front of the text that it is taken from. -/
theorem exists_numberText_append (text : List Char) : ∃ rest, text = numberText text ++ rest := by
  obtain ⟨sign, unsigned, last, hsign, hlast, hnumber⟩ := exists_numberText_parts text
  obtain ⟨rest, hrest⟩ := exists_powerAt_append last
  have htext := splitOptional_fst_append_snd ['-'] text
  rw [hsign] at htext
  refine ⟨rest, ?_⟩
  rw [hnumber, List.append_assoc, List.append_assoc, List.append_assoc, ← hrest, ← hlast,
    List.takeWhile_append_dropWhile, htext]

theorem local_number : Local number := by
  intro text x rest more h hrest
  rw [number] at h
  split at h
  · next p hp =>
    obtain ⟨rfl, rfl⟩ := Parsed.yields_ok.mp h
    obtain ⟨numeral, hread, hfront⟩ := Option.bind_eq_some_iff.mp hp
    obtain ⟨behind, hbehind⟩ := exists_numberText_append text
    have hne : numberText text ≠ [] := by
      intro hnil
      rw [hnil] at hread
      cases hread
    have hfound := finds_takeFront numeral.toFloat hne behind
    rw [← hbehind] at hfound
    obtain ⟨hp', hvalue⟩ := Parsed.Finds.unique ⟨p.shorter, hfront⟩ hfound
    subst hp'
    have hmore : p.rest = [] → Halts goesOn more := fun hnil => by
      rw [hnil] at hrest
      exact hrest
    have hlonger := finds_takeFront numeral.toFloat hne (p.rest ++ more)
    rw [← List.append_assoc, ← hbehind] at hlonger
    obtain ⟨shorter, hlonger⟩ := hlonger
    rw [number, numberText_append_more hread hbehind hmore, hread]
    simp only [Option.bind_some, hlonger]
    exact Parsed.yields_ok.mpr ⟨hvalue.symm, rfl⟩
  · exact absurd h Parsed.not_yields_error

end Abac.Rule
