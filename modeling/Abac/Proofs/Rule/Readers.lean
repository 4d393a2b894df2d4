import Abac.Proofs.Rule.Writing

/-!
The readers of a rule, one by one. A chain reads operands as long as an operator stands between
them, a list reads elements as long as a comma does, and a primary is told by its first character.
What a reader yields follows from what the readers inside it yield; a token is read as the
expression that it was written for (`yields_atom`).
-/
namespace Abac.Rule

/-! ## How texts start -/

/-- The characters that a phrase may start with are no blanks and none of the marks that end an
array or an object or go on with a comparator. -/
def Starts (c : Char) : Prop := isBlank c = false ∧ c ≠ ']' ∧ c ≠ '}' ∧ c ≠ '='

theorem isBlank_of_goesOn {c : Char} (h : goesOn c = true) : isBlank c = false := by
  rw [← Bool.not_eq_true]
  intro hblank
  rw [goesOn_of_isBlank hblank] at h
  cases h

theorem starts_of_goesOn {c : Char} (h : goesOn c = true) : Starts c := by
  refine ⟨isBlank_of_goesOn h, ?_, ?_, ?_⟩ <;>
    · rintro rfl
      exact absurd h (by decide)

theorem goesOn_of_isNameChar {c : Char} (h : isNameChar c = true) : goesOn c = true := by
  rw [goesOn, h, Bool.true_or]

theorem starts_quote {c : Char} (h : isQuote c = true) : Starts c := by
  rcases eq_or_eq_of_isQuote h with rfl | rfl <;> exact ⟨by decide, by decide, by decide, by decide⟩

def Opens (text : List Char) : Prop := ∃ c more, text = c :: more ∧ Starts c

theorem Opens.append {text : List Char} (h : Opens text) (rest : List Char) :
    Opens (text ++ rest) := by
  obtain ⟨c, more, rfl, hc⟩ := h
  exact ⟨c, more ++ rest, rfl, hc⟩

theorem Opens.skipBlank {text : List Char} (h : Opens text) : skipBlank text = text := by
  obtain ⟨c, more, rfl, hc⟩ := h
  exact skipBlank_cons hc.1 more

theorem StringText.opens {s : String} {text : List Char} (h : StringText s text) : Opens text := by
  obtain ⟨hquote, -⟩ := h
  exact ⟨_, _, rfl, starts_quote hquote⟩

theorem IsName.opens {name : String} (h : IsName name) : Opens name.toList := by
  obtain ⟨c, more, hname⟩ := List.exists_cons_of_ne_nil h.1
  have hc : isNameChar c = true := h.2 c (hname ▸ List.mem_cons_self)
  exact ⟨c, more, hname, starts_of_goesOn (goesOn_of_isNameChar hc)⟩

theorem KeyText.opens {key : String} {text : List Char} (h : KeyText key text) : Opens text := by
  cases h with
  | bare h => exact h.opens
  | string h => exact h.opens

theorem PathText.opens {path : AttributePath} {text : List Char} (h : PathText path text) :
    Opens text := by
  obtain ⟨-⟩ := h
  exact (isName_namespace path.ns).1.opens.append _

theorem Atom.opens {e : Expr} {text : List Char} (h : Atom e text) : Opens text := by
  cases h with
  | null => exact ⟨_, _, rfl, starts_of_goesOn (by decide)⟩
  | true => exact ⟨_, _, rfl, starts_of_goesOn (by decide)⟩
  | false => exact ⟨_, _, rfl, starts_of_goesOn (by decide)⟩
  | @number n h =>
    obtain ⟨-, c, more, heq, hc⟩ := startsNumber_text h []
    refine ⟨c, more, heq, ?_⟩
    rcases hc with rfl | rfl | hc
    · exact ⟨by decide, by decide, by decide, by decide⟩
    · exact starts_of_goesOn (by decide)
    · exact starts_of_goesOn (goesOn_of_isDecimal hc)
  | string h => exact h.opens
  | @pattern p h =>
    refine ⟨'/', p.source.toList ++ '/' :: p.flags.toList, ?_, ?_⟩
    · simp [Pattern.text]
    · exact ⟨by decide, by decide, by decide, by decide⟩
  | path h _ => exact h.opens

theorem Writes.opens {phrase : Phrase} {depth : Nat} {text : List Char}
    (h : Writes phrase depth text) : Opens text := by
  have hbracket : ∀ c : Char, c ∈ ['(', '[', '{'] → Starts c := by
    intro c hc
    simp only [List.mem_cons, List.not_mem_nil, or_false] at hc
    rcases hc with rfl | rfl | rfl <;> exact ⟨by decide, by decide, by decide, by decide⟩
  induction h with
  | product _ ih => exact ih
  | add _ _ _ _ _ ih _ => exact ih.append _
  | primary _ ih => exact ih
  | multiply _ _ _ _ _ ih _ => exact ih.append _
  | atom _ h => exact h.opens
  | parentheses _ _ _ _ _ => exact ⟨_, _, rfl, hbracket _ (by decide)⟩
  | emptyArray _ _ => exact ⟨_, _, rfl, hbracket _ (by decide)⟩
  | array _ _ _ _ _ => exact ⟨_, _, rfl, hbracket _ (by decide)⟩
  | emptyObject _ _ => exact ⟨_, _, rfl, hbracket _ (by decide)⟩
  | object _ _ _ _ _ => exact ⟨_, _, rfl, hbracket _ (by decide)⟩
  | lastElement _ ih => exact ih
  | element _ _ _ _ ih _ => exact ih.append _
  | lastEntry hkey _ _ _ _ => exact hkey.opens.append _
  | entry hkey _ _ _ _ _ _ _ _ => exact hkey.opens.append _

/-! ## Readers -/

section Readers

variable {operator? : Char → Option Arithmetic} {operand item : Reader Expr} {lhs rhs e : Expr}
  {op : Arithmetic} {c : Char} {text more middle rest : List Char}

/-- Without an operator in front nothing more is read. -/
theorem yields_chainTail_stop (lhs : Expr)
    (h : Halts (fun c => (operator? c).isSome) (skipBlank text)) :
    Continued.Yields (chainTail operator? operand lhs text) lhs text := by
  rw [chainTail]
  split
  · exact Continued.yields_ok.mpr ⟨rfl, rfl⟩
  · next c more hskip =>
    have hnone : operator? c = none := by simpa using h c (by rw [hskip]; rfl)
    rw [hnone]
    exact Continued.yields_ok.mpr ⟨rfl, rfl⟩

/-- Behind an operator an operand is read and joined to what was read before. -/
theorem yields_chainTail_step (hskip : skipBlank text = c :: more) (hop : operator? c = some op)
    (hrhs : Parsed.Yields (operand (skipBlank more)) rhs middle)
    (htail : Continued.Yields (chainTail operator? operand (.binary op lhs rhs) middle) e rest) :
    Continued.Yields (chainTail operator? operand lhs text) e rest := by
  obtain ⟨shorter, hrhs⟩ := hrhs
  obtain ⟨notLonger, htail⟩ := htail
  rw [chainTail]
  split
  · next hnil => exact absurd (hnil.symm.trans hskip) (List.cons_ne_nil c more).symm
  · next c' more' hcons =>
    obtain ⟨rfl, rfl⟩ := List.cons.inj (hcons.symm.trans hskip)
    simp only [hop, hrhs, htail, Except.map]
    exact Continued.yields_ok.mpr ⟨rfl, rfl⟩

theorem yields_chain (hlhs : Parsed.Yields (operand text) lhs middle)
    (htail : Continued.Yields (chainTail operator? operand lhs middle) e rest) :
    Parsed.Yields (chain operator? operand text) e rest := by
  obtain ⟨shorter, hlhs⟩ := hlhs
  obtain ⟨notLonger, htail⟩ := htail
  simp only [chain, bind, Except.bind, hlhs, htail, pure, Except.pure]
  exact Parsed.yields_ok.mpr ⟨rfl, rfl⟩

theorem yields_parenthesized (hitem : Parsed.Yields (item (skipBlank text)) e middle)
    (hclose : skipBlank middle = ')' :: rest) :
    Parsed.Yields (parenthesized item text) e rest := by
  obtain ⟨shorter, hitem⟩ := hitem
  rw [parenthesized, hitem]
  simp only
  split
  · next rest' hcons =>
    obtain ⟨-, rfl⟩ := List.cons.inj (hcons.symm.trans hclose)
    exact Parsed.yields_ok.mpr ⟨rfl, rfl⟩
  · next hother => exact absurd hclose (hother rest)

theorem yields_elements_last (hitem : Parsed.Yields (item text) e middle)
    (hclose : skipBlank middle = ']' :: rest) : Parsed.Yields (elements item text) [e] rest := by
  obtain ⟨shorter, hitem⟩ := hitem
  rw [elements, hitem]
  simp only
  split
  · next more' hcons => exact absurd (hcons.symm.trans hclose) (by simp)
  · next rest' hcons =>
    obtain ⟨-, rfl⟩ := List.cons.inj (hcons.symm.trans hclose)
    exact Parsed.yields_ok.mpr ⟨rfl, rfl⟩
  · next hother => exact absurd hclose (hother rest)

theorem yields_elements_cons {items : List Expr} (hitem : Parsed.Yields (item text) e middle)
    (hcomma : skipBlank middle = ',' :: more)
    (hmore : Parsed.Yields (elements item more) items rest) :
    Parsed.Yields (elements item text) (e :: items) rest := by
  obtain ⟨shorter, hitem⟩ := hitem
  obtain ⟨shorter', hmore⟩ := hmore
  rw [elements, hitem]
  simp only
  split
  · next more' hcons =>
    obtain ⟨-, rfl⟩ := List.cons.inj (hcons.symm.trans hcomma)
    simp only [hmore, Except.map]
    exact Parsed.yields_ok.mpr ⟨rfl, rfl⟩
  · next rest' hcons => exact absurd (hcons.symm.trans hcomma) (by simp)
  · next hother _ => exact absurd hcomma (hother more)

theorem yields_arrayBody_nil (hclose : skipBlank text = ']' :: rest) :
    Parsed.Yields (arrayBody item text) (.array []) rest := by
  rw [arrayBody]
  split
  · next rest' hcons =>
    obtain ⟨-, rfl⟩ := List.cons.inj (hcons.symm.trans hclose)
    exact Parsed.yields_ok.mpr ⟨rfl, rfl⟩
  · next hother => exact absurd hclose (hother rest)

theorem yields_arrayBody_of_ne {items : List Expr} (hopen : ∀ more, skipBlank text ≠ ']' :: more)
    (hitems : Parsed.Yields (elements item (skipBlank text)) items rest) :
    Parsed.Yields (arrayBody item text) (.array items) rest := by
  rw [arrayBody]
  split
  · next rest' hcons => exact absurd hcons (hopen rest')
  · exact (Parsed.yields_map _ Expr.array (fun _ => rfl) fun _ => rfl).mpr ⟨items, hitems, rfl⟩

theorem yields_arrayBody {items : List Expr} (hopens : Opens (skipBlank text))
    (hitems : Parsed.Yields (elements item (skipBlank text)) items rest) :
    Parsed.Yields (arrayBody item text) (.array items) rest := by
  refine yields_arrayBody_of_ne (fun more hcons => ?_) hitems
  obtain ⟨c, rest', hc, hstarts⟩ := hopens
  exact absurd (List.cons.inj (hcons.symm.trans hc)).1.symm hstarts.2.1

theorem yields_entry {key : String} (hkey : Parsed.Yields (objectKey (skipBlank text)) key middle)
    (hcolon : skipBlank middle = ':' :: more) (hitem : Parsed.Yields (item more) e rest) :
    Parsed.Yields (entry item text) (key, e) rest := by
  obtain ⟨shorter, hkey⟩ := hkey
  obtain ⟨shorter', hitem⟩ := hitem
  rw [entry, hkey]
  simp only
  split
  · next more' hcons =>
    obtain ⟨-, rfl⟩ := List.cons.inj (hcons.symm.trans hcolon)
    simp only [hitem, Except.map]
    exact Parsed.yields_ok.mpr ⟨rfl, rfl⟩
  · next hother => exact absurd hcolon (hother more)

theorem yields_entries_last {pair : String × Expr} (hpair : Parsed.Yields (entry item text) pair
      middle) (hclose : skipBlank middle = '}' :: rest) :
    Parsed.Yields (entries item text) [pair] rest := by
  obtain ⟨shorter, hpair⟩ := hpair
  rw [entries, hpair]
  simp only
  split
  · next more' hcons => exact absurd (hcons.symm.trans hclose) (by simp)
  · next rest' hcons =>
    obtain ⟨-, rfl⟩ := List.cons.inj (hcons.symm.trans hclose)
    exact Parsed.yields_ok.mpr ⟨rfl, rfl⟩
  · next hother => exact absurd hclose (hother rest)

theorem yields_entries_cons {pair : String × Expr} {pairs : List (String × Expr)}
    (hpair : Parsed.Yields (entry item text) pair middle)
    (hcomma : skipBlank middle = ',' :: more)
    (hmore : Parsed.Yields (entries item more) pairs rest) :
    Parsed.Yields (entries item text) (pair :: pairs) rest := by
  obtain ⟨shorter, hpair⟩ := hpair
  obtain ⟨shorter', hmore⟩ := hmore
  rw [entries, hpair]
  simp only
  split
  · next more' hcons =>
    obtain ⟨-, rfl⟩ := List.cons.inj (hcons.symm.trans hcomma)
    simp only [hmore, Except.map]
    exact Parsed.yields_ok.mpr ⟨rfl, rfl⟩
  · next rest' hcons => exact absurd (hcons.symm.trans hcomma) (by simp)
  · next hother _ => exact absurd hcomma (hother more)

theorem yields_objectBody_nil (hclose : skipBlank text = '}' :: rest) :
    Parsed.Yields (objectBody item text) (.object []) rest := by
  rw [objectBody]
  split
  · next rest' hcons =>
    obtain ⟨-, rfl⟩ := List.cons.inj (hcons.symm.trans hclose)
    exact Parsed.yields_ok.mpr ⟨rfl, rfl⟩
  · next hother => exact absurd hclose (hother rest)

theorem yields_objectBody_of_ne {pairs : List (String × Expr)}
    (hopen : ∀ more, skipBlank text ≠ '}' :: more)
    (hpairs : Parsed.Yields (entries item (skipBlank text)) pairs rest) :
    Parsed.Yields (objectBody item text) (.object pairs) rest := by
  rw [objectBody]
  split
  · next rest' hcons => exact absurd hcons (hopen rest')
  · exact (Parsed.yields_map _ Expr.object (fun _ => rfl) fun _ => rfl).mpr ⟨pairs, hpairs, rfl⟩

theorem yields_objectBody {pairs : List (String × Expr)} (hopens : Opens (skipBlank text))
    (hpairs : Parsed.Yields (entries item (skipBlank text)) pairs rest) :
    Parsed.Yields (objectBody item text) (.object pairs) rest := by
  refine yields_objectBody_of_ne (fun more hcons => ?_) hpairs
  obtain ⟨c, rest', hc, hstarts⟩ := hopens
  exact absurd (List.cons.inj (hcons.symm.trans hc)).1.symm hstarts.2.2.1

theorem yields_objectKey {key : String} {keyText : List Char} (h : KeyText key keyText)
    (hrest : Halts isNameChar rest) : Parsed.Yields (objectKey (keyText ++ rest)) key rest := by
  cases h with
  | bare h =>
    have hrun := finds_name h hrest
    obtain ⟨c, more, hname⟩ := List.exists_cons_of_ne_nil h.1
    have hc : isNameChar c = true := h.2 c (hname ▸ List.mem_cons_self)
    rw [hname, List.cons_append] at hrun
    obtain ⟨shorter, hrun⟩ := hrun
    rw [hname, List.cons_append, objectKey, isQuote_eq_false hc, hrun]
    refine Parsed.yields_ok.mpr ⟨?_, rfl⟩
    change String.ofList (c :: more) = key
    rw [← hname, String.ofList_toList]
  | string h =>
    obtain ⟨hquote, hescapes⟩ := h
    rw [List.cons_append, List.append_assoc, List.singleton_append, objectKey, if_pos hquote]
    exact yields_quoted hquote hescapes rest

/-! ## Primaries -/

theorem yields_parentheses (h : Parsed.Yields (parenthesized item text) e rest) :
    Parsed.Yields (primaryHere item ('(' :: text)) e rest :=
  (Parsed.yields_map_of_eq Parsed.behind (fun _ => rfl) fun _ => rfl).mpr h

theorem yields_brackets (h : Parsed.Yields (arrayBody item text) e rest) :
    Parsed.Yields (primaryHere item ('[' :: text)) e rest :=
  (Parsed.yields_map_of_eq Parsed.behind (fun _ => rfl) fun _ => rfl).mpr h

theorem yields_braces (h : Parsed.Yields (objectBody item text) e rest) :
    Parsed.Yields (primaryHere item ('{' :: text)) e rest :=
  (Parsed.yields_map_of_eq Parsed.behind (fun _ => rfl) fun _ => rfl).mpr h

def openingMarks : List Char := ['(', '[', '{', '/']

/-- A character of a class to which none of these marks belongs is none of them. -/
theorem notMem_openingMarks {p : Char → Bool} (hc : p c = true)
    (hmarks : openingMarks.all (!p ·) = true) : c ∉ openingMarks := by
  intro hmem
  have hnot := List.all_eq_true.mp hmarks c hmem
  rw [hc] at hnot
  cases hnot

/-- A primary that does not start with a bracket or a slash is told by its first character. -/
theorem primaryHere_cons (hc : c ∉ openingMarks) :
    primaryHere item (c :: text) =
      if isQuote c then (quoted c (c :: text)).map fun p => p.map fun s => .literal (.string s)
      else if startsNumber (c :: text) then
        (number (c :: text)).map fun p => p.map fun x => .literal (.number x)
      else if isNameChar c then wordOrPath (c :: text)
      else failAt (c :: text) (.unexpected c) := by
  rw [primaryHere]
  all_goals
    rintro rfl
    exact hc (by decide)

/-- The name of a namespace is no word that stands for a value. -/
theorem yields_wordOrPath_path {path : AttributePath} (h : PathText path text)
    (hkey : path.key = none) (hrest : Halts goesOn rest) :
    Parsed.Yields (wordOrPath (text ++ rest)) (.path path) rest := by
  have hpath := yields_valuePath h hkey hrest
  obtain ⟨hparts⟩ := h
  next parts =>
  have hword : wordValue (path.ns.name.toList ++ parts ++ rest) = none := by
    obtain ⟨shorter, hrun⟩ := finds_name (isName_namespace path.ns).1 (hparts.halts hrest)
    have hvalue : wordValue? path.ns.name.toList = none := by
      cases path.ns <;> rfl
    rw [wordValue, List.append_assoc, hrun]
    simp only [Option.bind_some, hvalue, Option.map_none, ite_self]
  rw [wordOrPath, hword]
  exact (Parsed.yields_map _ Expr.path (fun _ => rfl) fun _ => rfl).mpr ⟨path, hpath, rfl⟩

/-- Where a namespace or a word stands, a word or a path is read. -/
theorem primaryHere_name {name : String} (h : IsName name)
    (hdigit : Halts Digits.isDecimal name.toList) (rest : List Char) :
    primaryHere item (name.toList ++ rest) = wordOrPath (name.toList ++ rest) := by
  obtain ⟨c, more, hname⟩ := List.exists_cons_of_ne_nil h.1
  have hc : isNameChar c = true := h.2 c (hname ▸ List.mem_cons_self)
  have hmark : c ∉ openingMarks := notMem_openingMarks hc (by decide)
  have hnumber : startsNumber (c :: (more ++ rest)) = false := by
    unfold startsNumber
    split
    · next heq => exact absurd ((List.cons.inj heq).1 ▸ hc) (by decide)
    · next heq => exact absurd ((List.cons.inj heq).1 ▸ hc) (by decide)
    · next heq => exact (List.cons.inj heq).1 ▸ hdigit c (by rw [hname]; rfl)
    · next heq => cases heq
  rw [hname, List.cons_append, primaryHere_cons hmark, isQuote_eq_false hc, hnumber, hc]
  rfl

/-- A word that stands for a value is read as the value. -/
theorem yields_word (name : String) {value : Value} (h : IsName name)
    (hdigit : Halts Digits.isDecimal name.toList)
    (hvalue : wordValue? name.toList = some value) (hrest : Halts goesOn rest) :
    Parsed.Yields (primaryHere item (name.toList ++ rest)) (.literal value) rest := by
  obtain ⟨shorter, hrun⟩ := finds_name h (halts_isNameChar hrest)
  have hdot : ¬rest.head? = some '.' := by
    intro hhead
    exact absurd (hrest '.' hhead) (by decide)
  rw [primaryHere_name h hdigit, wordOrPath, wordValue, hrun]
  simp only [Option.bind_some, if_neg hdot, hvalue, Option.map_some]
  exact Parsed.yields_ok.mpr ⟨rfl, rfl⟩

/-- A token is read as the expression that it was written for. -/
theorem yields_atom (h : Atom e text) (hrest : Halts goesOn rest) :
    Parsed.Yields (primaryHere item (text ++ rest)) e rest := by
  cases h with
  | null => exact yields_word "null" (by decide) (by decide) rfl hrest
  | true => exact yields_word "true" (by decide) (by decide) rfl hrest
  | false => exact yields_word "false" (by decide) (by decide) rfl hrest
  | @number n h =>
    obtain ⟨hnumber, c, more, heq, hc⟩ := startsNumber_text h rest
    have hread := yields_number h hrest
    rw [heq, List.cons_append] at hnumber hread ⊢
    have hmark : c ∉ openingMarks := by
      rcases hc with rfl | rfl | hc
      · decide
      · decide
      · exact notMem_openingMarks hc (by decide)
    have hquote : isQuote c = false := by
      rw [← Bool.not_eq_true]
      intro hquote
      rcases eq_or_eq_of_isQuote hquote with rfl | rfl <;> exact absurd hc (by decide)
    rw [primaryHere_cons hmark, hquote, hnumber]
    exact (Parsed.yields_map _ (fun x => Expr.literal (.number x)) (fun _ => rfl)
      fun _ => rfl).mpr ⟨n.value, hread, rfl⟩
  | @string s text h =>
    obtain ⟨hquote, hescapes⟩ := h
    next quote body =>
    have hmark : quote ∉ openingMarks := notMem_openingMarks hquote (by decide)
    rw [List.cons_append, List.append_assoc, List.singleton_append, primaryHere_cons hmark,
      if_pos hquote]
    exact (Parsed.yields_map _ (fun s => Expr.literal (.string s)) (fun _ => rfl)
      fun _ => rfl).mpr ⟨s, yields_quoted hquote hescapes rest, rfl⟩
  | @pattern p h =>
    have hletters : Halts isAsciiLetter rest := halts_of_goesOn hrest fun c hc =>
      goesOn_of_isNameChar (isNameChar_of_isAsciiLetter hc)
    have hread := yields_pattern h hletters
    have htext : p.text.toList = '/' :: (p.source.toList ++ '/' :: p.flags.toList) := by
      simp [Pattern.text]
    rw [htext, List.cons_append] at hread ⊢
    exact (Parsed.yields_map _ Expr.regex (fun _ => rfl) fun _ => rfl).mpr ⟨p, hread, rfl⟩
  | @path path text h hkey =>
    have hread := yields_wordOrPath_path h hkey hrest
    obtain ⟨hparts⟩ := h
    next parts =>
    obtain ⟨hname, hdigit⟩ := isName_namespace path.ns
    rw [List.append_assoc] at hread ⊢
    rw [primaryHere_name hname hdigit]
    exact hread

theorem yields_primary {levels : Nat}
    (h : Parsed.Yields (primaryHere (arithmetic (primary levels)) (skipBlank text)) e rest) :
    Parsed.Yields (primary (levels + 1) text) e rest := by
  rw [primary]
  exact (Parsed.yields_map_of_eq (fun p => p.widen (length_skipBlank_le text)) (fun _ => rfl)
    fun _ => rfl).mpr h

end Readers

end Abac.Rule
