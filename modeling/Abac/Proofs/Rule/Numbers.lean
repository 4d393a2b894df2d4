import Abac.Proofs.Rule.Tokens

/-!
How numbers are written, and that they are read back. A number has an optional minus, digits, a
point with digits behind it and a power of ten; digits stand before the point or behind it. Its
value is that of the numeral with all of these digits (`NumberText.value`), rounded once.
-/
namespace Abac.Rule

open Digits

structure PowerText where
  mark : Char
  sign : List Char
  digits : List Char

namespace PowerText

structure Valid (p : PowerText) : Prop where
  mark : p.mark = 'e' ∨ p.mark = 'E'
  sign : p.sign = [] ∨ p.sign = ['+'] ∨ p.sign = ['-']
  nonempty : p.digits ≠ []
  digits : ∀ c ∈ p.digits, isDecimal c = true

def text (p : PowerText) : List Char := p.mark :: (p.sign ++ p.digits)

def value (p : PowerText) : Int :=
  if p.sign = ['-'] then -(ofDecimal p.digits : Int) else ofDecimal p.digits

end PowerText

structure NumberText where
  minus : Bool
  whole : List Char
  fraction : Option (List Char)
  power : Option PowerText

namespace NumberText

def fractionDigits (n : NumberText) : List Char := n.fraction.getD []

structure Valid (n : NumberText) : Prop where
  whole : ∀ c ∈ n.whole, isDecimal c = true
  fraction : ∀ c ∈ n.fractionDigits, isDecimal c = true
  nonempty : n.whole ≠ [] ∨ n.fractionDigits ≠ []
  power : ∀ p, n.power = some p → p.Valid

def signText (n : NumberText) : List Char := if n.minus then ['-'] else []

def fractionText (n : NumberText) : List Char := n.fraction.elim [] ('.' :: ·)

def powerText (n : NumberText) : List Char := n.power.elim [] PowerText.text

def unsignedText (n : NumberText) : List Char := n.whole ++ (n.fractionText ++ n.powerText)

def text (n : NumberText) : List Char := n.signText ++ n.unsignedText

theorem fractionText_cases (n : NumberText) :
    (n.fractionText = [] ∧ n.fractionDigits = []) ∨ n.fractionText = '.' :: n.fractionDigits := by
  unfold fractionText fractionDigits
  cases n.fraction with
  | none => exact .inl ⟨rfl, rfl⟩
  | some digits => exact .inr rfl

def numeral (n : NumberText) : Numeral where
  negative := n.minus
  significand := ofDecimal (n.whole ++ n.fractionDigits)
  exponent := n.power.elim 0 PowerText.value - (n.fractionDigits.length : Int)

def value (n : NumberText) : Float := n.numeral.toFloat

end NumberText

theorem toNat_of_isDecimal {c : Char} (h : isDecimal c = true) : 48 ≤ c.toNat ∧ c.toNat ≤ 57 := by
  simp only [isDecimal, decimal?] at h
  split at h
  · next hc =>
    simp only [Char.le_def, UInt32.le_iff_toNat_le] at hc
    exact hc
  · cases h

theorem goesOn_of_isDecimal {c : Char} (h : isDecimal c = true) : goesOn c = true := by
  have hsmall : c.toNat < 0x80 := by
    have := toNat_of_isDecimal h
    omega
  simp [goesOn, isNameChar, isAlphanumeric, hsmall, h]

/-- A digit is none of the signs and marks in a number. -/
theorem ne_of_isDecimal {c d : Char} (h : isDecimal c = true) (hd : isDecimal d = false) :
    c ≠ d := by
  rintro rfl
  rw [h] at hd
  cases hd

theorem splitOptional_of_halts {cs rest : List Char} (h : Halts cs.contains rest) :
    splitOptional cs rest = ([], rest) := by
  cases rest with
  | nil => rfl
  | cons c rest => rw [splitOptional, h c rfl, if_neg Bool.false_ne_true]

/-- Where nothing goes on with a token, no character of a class stands that would go on with one. -/
theorem halts_of_goesOn {p : Char → Bool} {rest : List Char} (h : Halts goesOn rest)
    (hp : ∀ c, p c = true → goesOn c = true) : Halts p rest := by
  intro c hc
  rw [← Bool.not_eq_true]
  intro hpc
  have hgoes := hp c hpc
  rw [h c hc] at hgoes
  cases hgoes

section Parts

variable {n : NumberText} {rest : List Char}

theorem halts_isDecimal_of_goesOn (h : Halts goesOn rest) : Halts isDecimal rest :=
  halts_of_goesOn h fun _ => goesOn_of_isDecimal

namespace NumberText.Valid

variable (h : n.Valid)

include h

theorem halts_power (hrest : Halts goesOn rest) : Halts isDecimal (n.powerText ++ rest) := by
  cases hpower : n.power with
  | none =>
    rw [NumberText.powerText, hpower]
    exact halts_isDecimal_of_goesOn hrest
  | some p =>
    rw [NumberText.powerText, hpower]
    rcases (h.power p hpower).mark with hmark | hmark <;>
      exact halts_cons (by rw [hmark]; rfl)

theorem halts_point (hrest : Halts goesOn rest) : Halts ['.'].contains (n.powerText ++ rest) := by
  cases hpower : n.power with
  | none =>
    rw [NumberText.powerText, hpower]
    exact halts_of_goesOn hrest fun c hc => by simp_all [goesOn]
  | some p =>
    rw [NumberText.powerText, hpower]
    rcases (h.power p hpower).mark with hmark | hmark <;>
      exact halts_cons (by rw [hmark]; rfl)

theorem halts_fraction (hrest : Halts goesOn rest) :
    Halts isDecimal (n.fractionText ++ (n.powerText ++ rest)) := by
  cases hfraction : n.fraction with
  | none =>
    rw [NumberText.fractionText, hfraction]
    exact h.halts_power hrest
  | some digits =>
    rw [NumberText.fractionText, hfraction]
    exact halts_cons rfl

/-- A number without its sign starts with a digit or with a point before a digit. -/
theorem exists_unsignedText_eq :
    (∃ c more, isDecimal c = true ∧ n.unsignedText = c :: more) ∨
      ∃ c more, isDecimal c = true ∧ n.unsignedText = '.' :: c :: more := by
  have hwhole := h.whole
  have hfraction := h.fraction
  have hnonempty := h.nonempty
  unfold NumberText.unsignedText
  cases hw : n.whole with
  | cons c more =>
    exact .inl ⟨c, _, hwhole c (hw ▸ List.mem_cons_self), rfl⟩
  | nil =>
    unfold NumberText.fractionDigits at hfraction hnonempty
    unfold NumberText.fractionText
    cases hf : n.fraction with
    | none => simp [hw, hf] at hnonempty
    | some digits =>
      cases digits with
      | nil => simp [hw, hf] at hnonempty
      | cons c more =>
        exact .inr ⟨c, _, hfraction c (by simp [hf]), rfl⟩

theorem unsignedText_ne_nil : n.unsignedText ≠ [] := by
  rcases h.exists_unsignedText_eq with ⟨c, more, -, heq⟩ | ⟨c, more, -, heq⟩ <;> simp [heq]

/-- No sign stands where the digits of a number start. -/
theorem halts_sign {p : Char → Bool} (hdigit : ∀ c, isDecimal c = true → p c = false)
    (hpoint : p '.' = false) (rest : List Char) : Halts p (n.unsignedText ++ rest) := by
  rcases h.exists_unsignedText_eq with ⟨c, more, hc, heq⟩ | ⟨c, more, -, heq⟩
  · rw [heq]
    exact halts_cons (hdigit c hc)
  · rw [heq]
    exact halts_cons hpoint

theorem takeWhile_unsignedText (hrest : Halts goesOn rest) :
    (n.unsignedText ++ rest).takeWhile isDecimal = n.whole := by
  rw [NumberText.unsignedText, List.append_assoc, List.append_assoc]
  exact takeWhile_append_of_halts h.whole (h.halts_fraction hrest)

theorem dropWhile_unsignedText (hrest : Halts goesOn rest) :
    (n.unsignedText ++ rest).dropWhile isDecimal = n.fractionText ++ (n.powerText ++ rest) := by
  rw [NumberText.unsignedText, List.append_assoc, List.append_assoc]
  exact dropWhile_append_of_halts h.whole (h.halts_fraction hrest)

end NumberText.Valid

end Parts

/-! ## The text of a number -/

section Scanning

variable {n : NumberText} {rest : List Char}

theorem splitOptional_signText (h : n.Valid) :
    splitOptional ['-'] (n.text ++ rest) = (n.signText, n.unsignedText ++ rest) := by
  unfold NumberText.text NumberText.signText
  cases n.minus with
  | true => rfl
  | false =>
    refine splitOptional_of_halts (h.halts_sign (fun c hc => ?_) rfl rest)
    have hne : c ≠ '-' := ne_of_isDecimal hc rfl
    simp [hne]

/-- The power of ten is taken whole, and nothing where there is none. -/
theorem scan_powerText (h : n.Valid) (hrest : Halts goesOn rest) :
    ∃ mark powerSign last, splitOptional ['e', 'E'] (n.powerText ++ rest) = (mark, last) ∧
      ∃ behind, (if mark = [] then ([], []) else splitOptional ['+', '-'] last) =
        (powerSign, behind) ∧
      mark ++ (powerSign ++ behind.takeWhile isDecimal) = n.powerText := by
  unfold NumberText.powerText
  cases hpower : n.power with
  | none =>
    have hmark : splitOptional ['e', 'E'] rest = ([], rest) := by
      refine splitOptional_of_halts (halts_of_goesOn hrest fun c hc => ?_)
      have hc : c = 'e' ∨ c = 'E' := by simpa using hc
      rcases hc with rfl | rfl <;> decide
    exact ⟨[], [], rest, hmark, [], rfl, rfl⟩
  | some p =>
    obtain ⟨hmark, hsign, hnonempty, hdigits⟩ := h.power p hpower
    obtain ⟨mark, sign, digits⟩ := p
    have hfirst : splitOptional ['e', 'E'] (mark :: (sign ++ digits) ++ rest) =
        ([mark], sign ++ (digits ++ rest)) := by
      rw [List.cons_append, List.append_assoc]
      rcases hmark with rfl | rfl <;> rfl
    have hsecond : splitOptional ['+', '-'] (sign ++ (digits ++ rest)) =
        (sign, digits ++ rest) := by
      rcases hsign with rfl | rfl | rfl
      · obtain ⟨c, more, rfl⟩ := List.exists_cons_of_ne_nil hnonempty
        have hc : isDecimal c = true := hdigits c List.mem_cons_self
        refine splitOptional_of_halts (halts_cons ?_)
        simp [ne_of_isDecimal hc (d := '+') rfl, ne_of_isDecimal hc (d := '-') rfl]
      · rfl
      · rfl
    refine ⟨[mark], sign, sign ++ (digits ++ rest), hfirst, digits ++ rest, ?_, ?_⟩
    · rw [if_neg (List.cons_ne_nil mark []), hsecond]
    · rw [takeWhile_append_of_halts hdigits (halts_isDecimal_of_goesOn hrest)]
      rfl

/-- The point and its digits are taken whole, and nothing where there is none. -/
theorem scan_fractionText (h : n.Valid) (hrest : Halts goesOn rest) :
    ∃ point last, splitOptional ['.'] (n.fractionText ++ (n.powerText ++ rest)) = (point, last) ∧
      (if point = [] then [] else last.takeWhile isDecimal) = n.fractionDigits ∧
      point ++ n.fractionDigits = n.fractionText ∧
      last.drop n.fractionDigits.length = n.powerText ++ rest := by
  rcases n.fractionText_cases with ⟨htext, hdigits⟩ | htext
  · rw [htext, hdigits]
    exact ⟨[], _, splitOptional_of_halts (h.halts_point hrest), rfl, rfl, rfl⟩
  · rw [htext]
    refine ⟨['.'], n.fractionDigits ++ (n.powerText ++ rest), rfl, ?_, rfl, List.drop_left⟩
    rw [if_neg (List.cons_ne_nil _ _)]
    exact takeWhile_append_of_halts h.fraction (h.halts_power hrest)

/-- The text of a number is taken whole. -/
theorem numberText_append (h : n.Valid) (hrest : Halts goesOn rest) :
    numberText (n.text ++ rest) = n.text := by
  obtain ⟨point, afterPoint, hpoint, hfraction, htext, hdrop⟩ := scan_fractionText h hrest
  obtain ⟨mark, powerSign, last, hmark, behind, hsign, hpower⟩ := scan_powerText h hrest
  unfold numberText
  simp only [splitOptional_signText h, h.takeWhile_unsignedText hrest,
    h.dropWhile_unsignedText hrest, hpoint, hfraction, hdrop, hmark, hsign]
  rw [NumberText.text, NumberText.unsignedText, ← htext, ← hpower]
  simp only [List.append_assoc]

end Scanning

/-! ## The value of a number -/

section Value

open Decimal

variable {n : NumberText}

theorem splitSign_of_halts {text : List Char} (h : Halts ['-', '+'].contains text) :
    splitSign text = (false, text) := by
  unfold splitSign
  split
  · exact absurd (h '-' rfl) (by decide)
  · exact absurd (h '+' rfl) (by decide)
  · rfl

theorem halts_signs_of_digits {digits : List Char} (h : ∀ c ∈ digits, isDecimal c = true) :
    Halts ['-', '+'].contains digits := by
  intro c hc
  have hdigit := h c (List.mem_of_head? hc)
  simp [ne_of_isDecimal hdigit (d := '-') rfl, ne_of_isDecimal hdigit (d := '+') rfl]

theorem readExponent_text {p : PowerText} (h : p.Valid) : readExponent p.text = some p.value := by
  obtain ⟨hmark, hsign, hnonempty, hdigits⟩ := h
  obtain ⟨mark, sign, digits⟩ := p
  have hall : digits ≠ [] ∧ digits.all isDecimal = true :=
    ⟨hnonempty, List.all_eq_true.mpr hdigits⟩
  unfold PowerText.text PowerText.value readExponent
  simp only [if_pos hmark]
  rcases hsign with rfl | rfl | rfl
  · rw [List.nil_append, splitSign_of_halts (halts_signs_of_digits hdigits)]
    simp only [if_pos hall]
    rfl
  · change (if digits ≠ [] ∧ digits.all isDecimal = true then _ else _) = _
    rw [if_pos hall]
    rfl
  · change (if digits ≠ [] ∧ digits.all isDecimal = true then _ else _) = _
    rw [if_pos hall]
    rfl

theorem readExponent_powerText (h : n.Valid) :
    readExponent n.powerText = some (n.power.elim 0 PowerText.value) := by
  unfold NumberText.powerText
  cases hpower : n.power with
  | none => rfl
  | some p => exact readExponent_text (h.power p hpower)

theorem readUnsigned_unsignedText (h : n.Valid) :
    readUnsigned n.unsignedText =
      some (n.numeral.significand, n.numeral.exponent) := by
  have hwhole := h.takeWhile_unsignedText (halts_nil goesOn)
  have hafter := h.dropWhile_unsignedText (halts_nil goesOn)
  have hpower := h.halts_power (halts_nil goesOn)
  have hpoint := h.halts_point (halts_nil goesOn)
  have hsome : ¬(n.whole = [] ∧ n.fractionDigits = []) := by
    rintro ⟨hw, hf⟩
    exact h.nonempty.elim (absurd hw) (absurd hf)
  simp only [List.append_nil] at hwhole hafter hpower hpoint
  unfold readUnsigned
  rw [hwhole, hafter]
  dsimp only
  split
  · next digits heq =>
    rcases n.fractionText_cases with ⟨htext, -⟩ | htext
    · rw [htext, List.nil_append] at heq
      exact absurd (hpoint '.' (heq ▸ rfl)) (by decide)
    · rw [htext, List.cons_append] at heq
      obtain rfl := (List.cons.inj heq).2
      simp only [takeWhile_append_of_halts h.fraction hpower,
        dropWhile_append_of_halts h.fraction hpower, if_neg hsome, readExponent_powerText h]
      rfl
  · next hnone =>
    rcases n.fractionText_cases with ⟨htext, hdigits⟩ | htext
    · rw [hdigits] at hsome
      rw [if_neg hsome, htext, List.nil_append, readExponent_powerText h, NumberText.numeral,
        hdigits]
      rfl
    · exact absurd (htext ▸ rfl) (hnone (n.fractionDigits ++ n.powerText))

/-- A written number is read as its numeral. -/
theorem readNumeral_text (h : n.Valid) : readNumeral n.text = some n.numeral := by
  have hsign : splitSign n.text = (n.minus, n.unsignedText) := by
    unfold NumberText.text NumberText.signText
    cases n.minus with
    | true => rfl
    | false =>
      have hhalts := h.halts_sign (p := ['-', '+'].contains) (fun c hc => by
        simp [ne_of_isDecimal hc (d := '-') rfl, ne_of_isDecimal hc (d := '+') rfl]) rfl []
      rw [List.append_nil] at hhalts
      exact splitSign_of_halts hhalts
  rw [readNumeral, hsign]
  simp only [readUnsigned_unsignedText h, Option.map_some]
  rfl

end Value

theorem finds_takeFront {α : Type} (value : α) {taken : List Char} (hne : taken ≠ [])
    (rest : List Char) :
    Parsed.Finds (takeFront taken.length value (taken ++ rest)) value rest := by
  obtain ⟨c, more, rfl⟩ := List.exists_cons_of_ne_nil hne
  exact Parsed.finds_some.mpr ⟨rfl, List.drop_left⟩

theorem NumberText.Valid.text_ne_nil {n : NumberText} (h : n.Valid) : n.text ≠ [] := by
  rw [NumberText.text]
  exact List.append_ne_nil_of_right_ne_nil _ h.unsignedText_ne_nil

/-- A written number is read back. -/
theorem yields_number {n : NumberText} (h : n.Valid) {rest : List Char}
    (hrest : Halts goesOn rest) : Parsed.Yields (number (n.text ++ rest)) n.value rest := by
  obtain ⟨shorter, hfront⟩ := finds_takeFront n.numeral.toFloat h.text_ne_nil rest
  rw [number, numberText_append h hrest, readNumeral_text h]
  simp only [Option.bind_some, hfront]
  exact Parsed.yields_ok.mpr ⟨rfl, rfl⟩

/-- A number starts where a written one stands, with a minus, a point or a digit. -/
theorem startsNumber_text {n : NumberText} (h : n.Valid) (rest : List Char) :
    startsNumber (n.text ++ rest) = true ∧
      ∃ c more, n.text = c :: more ∧ (c = '-' ∨ c = '.' ∨ isDecimal c = true) := by
  have hdigit : ∀ (c : Char) (more : List Char), isDecimal c = true →
      startsNumber (c :: more) = true := by
    intro c more hc
    unfold startsNumber
    split
    · next heq => cases heq; cases hc
    · next heq => cases heq; cases hc
    · next heq => cases heq; exact hc
    · next heq => cases heq
  unfold NumberText.text NumberText.signText
  cases n.minus with
  | true =>
    rcases h.exists_unsignedText_eq with ⟨c, more, hc, heq⟩ | ⟨c, more, hc, heq⟩
    · rw [heq]
      refine ⟨?_, '-', _, rfl, .inl rfl⟩
      change (isDecimal c || decide (c = '.')) = true
      rw [hc, Bool.true_or]
    · rw [heq]
      exact ⟨rfl, '-', _, rfl, .inl rfl⟩
  | false =>
    rcases h.exists_unsignedText_eq with ⟨c, more, hc, heq⟩ | ⟨c, more, hc, heq⟩
    · rw [heq]
      exact ⟨hdigit c _ hc, c, _, rfl, .inr (.inr hc)⟩
    · rw [heq]
      exact ⟨hc, '.', _, rfl, .inr (.inl rfl)⟩

end Abac.Rule
