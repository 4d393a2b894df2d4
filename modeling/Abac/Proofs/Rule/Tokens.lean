import Abac.Proofs.Character
import Abac.Proofs.Parsing
import Abac.Rule.Parser

/-!
How the tokens of a rule are written, numbers aside. A string stands between two quotes of either
kind; a quote of that kind and a backslash stand behind a backslash, and any other character may.
A path starts with the name of its namespace, and each of its segments is written bare or as a
string. A token is read as what it was written for, whatever stands behind it that does not go on
with it (`yields_assignedPath`, `yields_valuePath`, `yields_quoted`, `yields_pattern`).
-/
namespace Abac.Rule

/-! ## Blanks -/

def Blank (text : List Char) : Prop := ∀ c ∈ text, isBlank c = true

instance (text : List Char) : Decidable (Blank text) :=
  decidable_of_iff (text.all isBlank = true) List.all_eq_true

theorem blank_nil : Blank [] := fun _ h => nomatch h

theorem skipBlank_append {blanks : List Char} (h : Blank blanks) (rest : List Char) :
    skipBlank (blanks ++ rest) = skipBlank rest :=
  List.dropWhile_append_of_pos h

theorem skipBlank_cons {c : Char} (h : isBlank c = false) (rest : List Char) :
    skipBlank (c :: rest) = c :: rest :=
  List.dropWhile_cons_of_neg (by simp [h])

theorem skipBlank_eq_nil {blanks : List Char} (h : Blank blanks) : skipBlank blanks = [] :=
  List.append_nil blanks ▸ skipBlank_append h []

def goesOn (c : Char) : Bool := isNameChar c || c = '.'

theorem goesOn_of_isBlank {c : Char} (h : isBlank c = true) : goesOn c = false := by
  have hne : ∀ d : Char, isBlank d = false → c ≠ d := by
    rintro d hd rfl
    rw [hd] at h
    cases h
  simp [goesOn, isNameChar, isAlphanumeric_of_isBlank h, hne '_' rfl, hne '$' rfl, hne '.' rfl]

/-- What does not go on with a token does not do so behind blanks. -/
theorem halts_goesOn_append {blanks rest : List Char} (hblanks : Blank blanks)
    (hrest : Halts goesOn rest) : Halts goesOn (blanks ++ rest) := by
  cases blanks with
  | nil => exact hrest
  | cons c blanks => exact halts_cons (goesOn_of_isBlank (hblanks c List.mem_cons_self))

theorem halts_isNameChar {rest : List Char} (h : Halts goesOn rest) : Halts isNameChar rest := by
  intro c hc
  have hgoes := h c hc
  rw [goesOn, Bool.or_eq_false_iff] at hgoes
  exact hgoes.1

theorem isNameChar_of_isAsciiLetter {c : Char} (h : isAsciiLetter c = true) :
    isNameChar c = true := by
  have hsmall : c.toNat < 0x80 := by
    simp only [isAsciiLetter, Bool.or_eq_true, Bool.and_eq_true, decide_eq_true_eq,
      Char.le_def, UInt32.le_iff_toNat_le] at h
    change c.val.toNat < 128
    rcases h with ⟨-, h⟩ | ⟨-, h⟩ <;> exact Nat.lt_of_le_of_lt h (by decide)
  simp [isNameChar, isAlphanumeric, hsmall, h]

/-! ## Strings -/

theorem eq_or_eq_of_isQuote {c : Char} (h : isQuote c = true) : c = '\'' ∨ c = '"' := by
  simpa [isQuote] using h

/-- How characters are written between quotes: as themselves unless they are the quote or a
backslash, or behind a backslash as a character that stands for them there. -/
inductive Escapes (quote : Char) : List Char → List Char → Prop where
  | nil : Escapes quote [] []
  | plain {c : Char} {chars text : List Char} (hquote : c ≠ quote) (hbackslash : c ≠ '\\')
      (h : Escapes quote chars text) : Escapes quote (c :: chars) (c :: text)
  | escaped (c : Char) {chars text : List Char} (h : Escapes quote chars text) :
      Escapes quote (unescape c :: chars) ('\\' :: c :: text)

/-- Every text can be written between quotes. -/
theorem exists_escapes {quote : Char} (hquote : isQuote quote = true) (chars : List Char) :
    ∃ text, Escapes quote chars text := by
  have hself : unescape quote = quote := by
    rcases eq_or_eq_of_isQuote hquote with rfl | rfl <;> rfl
  induction chars with
  | nil => exact ⟨[], .nil⟩
  | cons c chars ih =>
    obtain ⟨text, htext⟩ := ih
    by_cases hc : c = quote
    · have hescaped := Escapes.escaped quote htext
      rw [hself] at hescaped
      exact ⟨'\\' :: quote :: text, hc ▸ hescaped⟩
    · by_cases hbackslash : c = '\\'
      · subst hbackslash
        exact ⟨'\\' :: '\\' :: text, .escaped '\\' htext⟩
      · exact ⟨c :: text, .plain hc hbackslash htext⟩

theorem finds_stringBody_close (quote : Char) (rest : List Char) :
    Parsed.Finds (stringBody quote (quote :: rest)) [] rest := by
  cases rest with
  | nil => rw [stringBody, if_pos rfl, Parsed.finds_some]; exact ⟨rfl, rfl⟩
  | cons d rest => rw [stringBody, if_pos rfl, Parsed.finds_some]; exact ⟨rfl, rfl⟩

/-- Characters written between quotes are read back up to the closing quote. -/
theorem finds_stringBody {quote : Char} (hquote : isQuote quote = true) {chars text : List Char}
    (h : Escapes quote chars text) (rest : List Char) :
    Parsed.Finds (stringBody quote (text ++ quote :: rest)) chars rest := by
  have hbackslash : '\\' ≠ quote := by
    rintro rfl
    cases hquote
  induction h with
  | nil => exact finds_stringBody_close quote rest
  | @plain c chars text hc hne _ ih =>
    obtain ⟨d, more, hmore⟩ := List.exists_cons_of_ne_nil (l := text ++ quote :: rest) (by simp)
    rw [hmore] at ih
    rw [List.cons_append, hmore, stringBody, if_neg hc, if_neg hne]
    exact ih.map _ (c :: ·) (fun _ => rfl) fun _ => rfl
  | @escaped c chars text _ ih =>
    rw [List.cons_append, List.cons_append, stringBody, if_neg hbackslash, if_pos rfl]
    exact ih.map _ (unescape c :: ·) (fun _ => rfl) fun _ => rfl

inductive StringText (s : String) : List Char → Prop where
  | mk {quote : Char} {text : List Char} (hquote : isQuote quote = true)
      (h : Escapes quote s.toList text) : StringText s (quote :: (text ++ [quote]))

theorem exists_stringText (s : String) : ∃ text, StringText s text := by
  have hquote : isQuote '\'' = true := by decide
  obtain ⟨text, htext⟩ := exists_escapes hquote s.toList
  exact ⟨_, .mk hquote htext⟩

theorem yields_quoted {quote : Char} (hquote : isQuote quote = true) {s : String}
    {text : List Char} (h : Escapes quote s.toList text) (rest : List Char) :
    Parsed.Yields (quoted quote (quote :: (text ++ quote :: rest))) s rest := by
  obtain ⟨shorter, hread⟩ := finds_stringBody hquote h rest
  rw [quoted, hread, Parsed.yields_ok]
  exact ⟨String.ofList_toList, rfl⟩

/-! ## Patterns -/

/-- The source of a pattern from a place on, inside brackets or not: no slash stands outside
brackets unless behind a backslash, the brackets are closed and something follows every
backslash. -/
inductive PatternSource : (inClass : Bool) → List Char → Prop where
  | nil : PatternSource false []
  | escaped {inClass : Bool} (c : Char) {text : List Char} (h : PatternSource inClass text) :
      PatternSource inClass ('\\' :: c :: text)
  | plain {inClass : Bool} {c : Char} {text : List Char} (hbackslash : c ≠ '\\')
      (hslash : c = '/' → inClass = true)
      (h : PatternSource (c = '[' || (inClass && c ≠ ']')) text) :
      PatternSource inClass (c :: text)

theorem finds_patternBody_close (rest : List Char) :
    Parsed.Finds (patternBody false ('/' :: rest)) [] rest := by
  cases rest with
  | nil => exact Parsed.finds_some.mpr ⟨rfl, rfl⟩
  | cons d rest => exact Parsed.finds_some.mpr ⟨rfl, rfl⟩

/-- The source of a pattern is read up to the slash that closes it. -/
theorem finds_patternBody {inClass : Bool} {source : List Char} (h : PatternSource inClass source)
    (rest : List Char) :
    Parsed.Finds (patternBody inClass (source ++ '/' :: rest)) source rest := by
  induction h with
  | nil => exact finds_patternBody_close rest
  | escaped c _ ih =>
    rw [List.cons_append, List.cons_append, patternBody, if_pos rfl]
    exact ih.map _ ('\\' :: c :: ·) (fun _ => rfl) fun _ => rfl
  | @plain inClass c text hbackslash hslash _ ih =>
    obtain ⟨d, more, hmore⟩ := List.exists_cons_of_ne_nil (l := text ++ '/' :: rest) (by simp)
    have hopen : ¬(c = '/' && !inClass) = true := by
      rw [Bool.and_eq_true, decide_eq_true_eq]
      rintro ⟨hc, hout⟩
      rw [hslash hc] at hout
      cases hout
    rw [hmore] at ih
    rw [List.cons_append, hmore, patternBody, if_neg hbackslash, if_neg hopen]
    exact ih.map _ (c :: ·) (fun _ => rfl) fun _ => rfl

structure IsPattern (p : Pattern) : Prop where
  source : PatternSource false p.source.toList
  nonempty : p.source.toList ≠ []
  flags : ∀ c ∈ p.flags.toList, isAsciiLetter c = true

theorem yields_pattern {p : Pattern} (h : IsPattern p) {rest : List Char}
    (hrest : Halts isAsciiLetter rest) :
    Parsed.Yields (pattern (p.text.toList ++ rest)) p rest := by
  have htext : p.text.toList ++ rest =
      '/' :: (p.source.toList ++ '/' :: (p.flags.toList ++ rest)) := by
    simp [Pattern.text]
  obtain ⟨shorter, hbody⟩ := finds_patternBody h.source (p.flags.toList ++ rest)
  rw [htext, pattern, hbody]
  simp only [if_neg h.nonempty]
  refine Parsed.yields_ok.mpr ⟨?_, dropWhile_append_of_halts h.flags hrest⟩
  change Pattern.mk (String.ofList p.source.toList)
    (String.ofList ((p.flags.toList ++ rest).takeWhile isAsciiLetter)) = p
  rw [takeWhile_append_of_halts h.flags hrest, String.ofList_toList, String.ofList_toList]

/-! ## Comparators -/

theorem yields_comparator (c : Comparator) {rest : List Char} (hrest : rest.head? ≠ some '=') :
    Parsed.Yields (comparator (c.symbol.toList ++ rest)) c rest := by
  have hsingle : ∀ more, rest = '=' :: more → False := by
    rintro more rfl
    exact hrest rfl
  cases c with
  | eq => exact Parsed.yields_ok.mpr ⟨rfl, rfl⟩
  | ne => exact Parsed.yields_ok.mpr ⟨rfl, rfl⟩
  | gte => exact Parsed.yields_ok.mpr ⟨rfl, rfl⟩
  | lte => exact Parsed.yields_ok.mpr ⟨rfl, rfl⟩
  | gt =>
    change Parsed.Yields (comparator ('>' :: rest)) .gt rest
    rw [comparator]
    · exact Parsed.yields_ok.mpr ⟨rfl, rfl⟩
    · exact hsingle
  | lt =>
    change Parsed.Yields (comparator ('<' :: rest)) .lt rest
    rw [comparator]
    · exact Parsed.yields_ok.mpr ⟨rfl, rfl⟩
    · exact hsingle

/-! ## Names -/

def IsName (name : String) : Prop := name.toList ≠ [] ∧ ∀ c ∈ name.toList, isNameChar c = true

instance (name : String) : Decidable (IsName name) :=
  decidable_of_iff (name.toList ≠ [] ∧ name.toList.all isNameChar = true)
    (and_congr_right fun _ => List.all_eq_true)

/-- A name is read as a whole. -/
theorem finds_name {name : String} (h : IsName name) {rest : List Char}
    (hrest : Halts isNameChar rest) :
    Parsed.Finds (takeRun? isNameChar (name.toList ++ rest)) name.toList rest := by
  obtain ⟨hne, hchars⟩ := h
  obtain ⟨c, more, hname⟩ := List.exists_cons_of_ne_nil hne
  rw [hname] at hchars ⊢
  exact takeRun?_cons_append hchars hrest

/-- The first character of a name is no quote. -/
theorem isQuote_eq_false {c : Char} (h : isNameChar c = true) : isQuote c = false := by
  rw [← Bool.not_eq_true]
  intro hquote
  rcases eq_or_eq_of_isQuote hquote with rfl | rfl <;> exact absurd h (by decide)

theorem yields_segment_name {name : String} (h : IsName name) (first : Bool)
    (hfirst : Halts (first && Digits.isDecimal ·) name.toList) {rest : List Char}
    (hrest : Halts isNameChar rest) :
    ∃ left, Parsed.Yields (segment first (name.toList ++ rest)) ⟨name, false, left⟩ rest := by
  have hrun := finds_name h hrest
  obtain ⟨c, more, hname⟩ := List.exists_cons_of_ne_nil h.1
  have hc : isNameChar c = true := h.2 c (hname ▸ List.mem_cons_self)
  have hdigit : (first && Digits.isDecimal c) = false := hfirst c (by rw [hname]; rfl)
  rw [hname, List.cons_append] at hrun
  obtain ⟨shorter, hrun⟩ := hrun
  refine ⟨(c :: (more ++ rest)).length, ?_⟩
  rw [hname, List.cons_append, segment, isQuote_eq_false hc, hdigit, hrun]
  refine Parsed.yields_ok.mpr ⟨?_, rfl⟩
  change Segment.mk (String.ofList (c :: more)) false _ = _
  rw [← hname, String.ofList_toList]

end Abac.Rule
