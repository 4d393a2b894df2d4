import Abac.Proofs.Rule.Readers

/-!
Tokens with more behind them. A reader of a rule looks no further than the character behind what it
takes: what it reads from a text on its own it reads as well where more stands behind the text, if
that does not go on with the last token (`Local`). A reader that looks for a mark behind blanks
needs one to be there already (`LocalBefore`). The places of the parts of a path are counted from
the end of the text, so they move with what stands behind it, and the path does not
(`local_valuePath`).
-/
namespace Abac.Rule

/-- What is read from a text on its own is read as well where more stands behind it that does not go
on with the last token. -/
def Local {α : Type} (reader : Reader α) : Prop :=
  ∀ (text : List Char) (value : α) (rest more : List Char), Parsed.Yields (reader text) value rest →
    Halts goesOn (rest ++ more) → Parsed.Yields (reader (text ++ more)) value (rest ++ more)

/-- A mark that goes on with no token stands in front, perhaps behind blanks. -/
def Marked (text : List Char) : Prop :=
  ∃ mark behind, skipBlank text = mark :: behind ∧ goesOn mark = false

/-- What is read from a text up to a mark is read as well where more stands behind the text. -/
def LocalBefore {α : Type} (reader : Reader α) : Prop :=
  ∀ (text : List Char) (value : α) (rest more : List Char), Parsed.Yields (reader text) value rest →
    Marked rest → Parsed.Yields (reader (text ++ more)) value (rest ++ more)

section Blanks

variable {c : Char} {text behind : List Char}

theorem skipBlank_append_of_cons (h : skipBlank text = c :: behind) (more : List Char) :
    skipBlank (text ++ more) = c :: (behind ++ more) := by
  unfold skipBlank at h ⊢
  rw [List.dropWhile_append, h]
  rfl

theorem skipBlank_skipBlank (text : List Char) : skipBlank (skipBlank text) = skipBlank text := by
  cases hskip : skipBlank text with
  | nil => rfl
  | cons c behind =>
    have hstop := List.head?_dropWhile_not isBlank text
    unfold skipBlank at hskip
    rw [hskip] at hstop
    exact skipBlank_cons hstop behind

theorem Marked.halts (h : Marked text) (more : List Char) : Halts goesOn (text ++ more) := by
  obtain ⟨mark, behind, hskip, hmark⟩ := h
  cases text with
  | nil => cases hskip
  | cons c text =>
    cases hc : isBlank c with
    | true => exact halts_cons (goesOn_of_isBlank hc)
    | false =>
      rw [skipBlank_cons hc] at hskip
      obtain ⟨rfl, -⟩ := List.cons.inj hskip
      exact halts_cons hmark

theorem Local.before {α : Type} {reader : Reader α} (h : Local reader) : LocalBefore reader :=
  fun text value rest more hread hrest => h text value rest more hread (hrest.halts more)

/-- Something is only read from a text that is not empty. -/
theorem exists_cons_of_yields {α : Type} (reader : Reader α) {value : α} {rest : List Char}
    (h : Parsed.Yields (reader text) value rest) : ∃ c behind, text = c :: behind := by
  obtain ⟨shorter, -⟩ := h
  exact List.exists_cons_of_ne_nil (List.ne_nil_of_length_pos (Nat.zero_lt_of_lt shorter))

/-- Blanks in front of something that is read end where they ended. -/
theorem skipBlank_append_of_yields {α : Type} (reader : Reader α) {value : α} {rest : List Char}
    (h : Parsed.Yields (reader (skipBlank text)) value rest) (more : List Char) :
    skipBlank (text ++ more) = skipBlank text ++ more := by
  obtain ⟨c, behind, hskip⟩ := exists_cons_of_yields reader h
  rw [skipBlank_append_of_cons hskip, hskip, List.cons_append]

end Blanks

/-! ## Runs -/

section Runs

variable {p : Char → Bool} {text run rest more : List Char}

theorem takeWhile_append_more (h : Halts p (text.dropWhile p ++ more)) :
    (text ++ more).takeWhile p = text.takeWhile p ∧
      (text ++ more).dropWhile p = text.dropWhile p ++ more := by
  have hrun : ∀ c ∈ text.takeWhile p, p c = true := List.all_eq_true.mp List.all_takeWhile
  have htext : text ++ more = text.takeWhile p ++ (text.dropWhile p ++ more) := by
    rw [← List.append_assoc, List.takeWhile_append_dropWhile]
  rw [htext]
  exact ⟨takeWhile_append_of_halts hrun h, dropWhile_append_of_halts hrun h⟩

/-- A run that ends where its text does is not gone on with by what stands behind. -/
theorem halts_dropWhile_append (h : text.dropWhile p = [] → Halts p more) :
    Halts p (text.dropWhile p ++ more) := by
  have hstop := List.head?_dropWhile_not p text
  cases hrest : text.dropWhile p with
  | nil => exact h hrest
  | cons c rest =>
    rw [hrest] at hstop
    exact halts_cons (by simpa using hstop)

theorem finds_takeRun?_append (h : Parsed.Finds (takeRun? p text) run rest)
    (hrest : Halts p (rest ++ more)) :
    Parsed.Finds (takeRun? p (text ++ more)) run (rest ++ more) := by
  obtain ⟨shorter, h⟩ := h
  obtain ⟨htext, hne, hrun, -⟩ := takeRun?_eq_some h
  obtain ⟨c, tail, rfl⟩ := List.exists_cons_of_ne_nil hne
  rw [htext, List.append_assoc, List.cons_append]
  exact takeRun?_cons_append hrun hrest

end Runs

/-! ## Strings and patterns -/

theorem finds_stringBody_append {quote : Char} {text chars rest : List Char}
    (h : Parsed.Finds (stringBody quote text) chars rest) (more : List Char) :
    Parsed.Finds (stringBody quote (text ++ more)) chars (rest ++ more) := by
  fun_induction stringBody quote text generalizing chars with
  | case1 => exact absurd h Parsed.not_finds_none
  | case2 =>
    obtain ⟨rfl, rfl⟩ := Parsed.finds_some.mp h
    exact finds_stringBody_close quote more
  | case3 => exact absurd h Parsed.not_finds_none
  | case4 d rest =>
    obtain ⟨rfl, rfl⟩ := Parsed.finds_some.mp h
    exact finds_stringBody_close quote (d :: rest ++ more)
  | case5 d rest hquote ih =>
    obtain ⟨inner, hinner, rfl⟩ := h.exists_of_map (unescape d :: ·) (fun _ => rfl) fun _ => rfl
    rw [List.cons_append, List.cons_append, stringBody, if_neg hquote, if_pos rfl]
    exact (ih hinner).map _ (unescape d :: ·) (fun _ => rfl) fun _ => rfl
  | case6 c d rest hquote hbackslash ih =>
    obtain ⟨inner, hinner, rfl⟩ := h.exists_of_map (c :: ·) (fun _ => rfl) fun _ => rfl
    rw [List.cons_append, List.cons_append, stringBody, if_neg hquote, if_neg hbackslash]
    exact (ih hinner).map _ (c :: ·) (fun _ => rfl) fun _ => rfl

theorem yields_quoted_append {quote : Char} {text rest : List Char} {s : String}
    (h : Parsed.Yields (quoted quote text) s rest) (more : List Char) :
    Parsed.Yields (quoted quote (text ++ more)) s (rest ++ more) := by
  cases text with
  | nil => exact absurd h Parsed.not_yields_error
  | cons c text =>
    rw [quoted] at h
    split at h
    · next p hp =>
      obtain ⟨rfl, rfl⟩ := Parsed.yields_ok.mp h
      obtain ⟨shorter, hbody⟩ := finds_stringBody_append ⟨p.shorter, hp⟩ more
      rw [List.cons_append, quoted, hbody]
      exact Parsed.yields_ok.mpr ⟨rfl, rfl⟩
    · exact absurd h Parsed.not_yields_error

theorem finds_patternBody_append {inClass : Bool} {text chars rest : List Char}
    (h : Parsed.Finds (patternBody inClass text) chars rest) (more : List Char) :
    Parsed.Finds (patternBody inClass (text ++ more)) chars (rest ++ more) := by
  fun_induction patternBody inClass text generalizing chars with
  | case1 => exact absurd h Parsed.not_finds_none
  | case2 inClass c hclose =>
    obtain ⟨rfl, rfl⟩ := Parsed.finds_some.mp h
    obtain ⟨rfl, hout⟩ : c = '/' ∧ inClass = false := by simpa using hclose
    rw [hout]
    exact finds_patternBody_close more
  | case3 => exact absurd h Parsed.not_finds_none
  | case4 inClass d rest ih =>
    obtain ⟨inner, hinner, rfl⟩ := h.exists_of_map ('\\' :: d :: ·) (fun _ => rfl) fun _ => rfl
    rw [List.cons_append, List.cons_append, patternBody, if_pos rfl]
    exact (ih hinner).map _ ('\\' :: d :: ·) (fun _ => rfl) fun _ => rfl
  | case5 inClass c d rest hbackslash hclose =>
    obtain ⟨rfl, rfl⟩ := Parsed.finds_some.mp h
    obtain ⟨rfl, hout⟩ : c = '/' ∧ inClass = false := by simpa using hclose
    rw [hout]
    exact finds_patternBody_close (d :: rest ++ more)
  | case6 inClass c d rest hbackslash hopen ih =>
    obtain ⟨inner, hinner, rfl⟩ := h.exists_of_map (c :: ·) (fun _ => rfl) fun _ => rfl
    rw [List.cons_append, List.cons_append, patternBody, if_neg hbackslash, if_neg hopen]
    exact (ih hinner).map _ (c :: ·) (fun _ => rfl) fun _ => rfl

theorem local_pattern : Local pattern := by
  intro text p rest more h hrest
  cases text with
  | nil => exact absurd h Parsed.not_yields_error
  | cons slash text =>
    rw [pattern] at h
    split at h
    · exact absurd h Parsed.not_yields_error
    · next source behind shorter hbody =>
      split at h
      · exact absurd h Parsed.not_yields_error
      · next hsource =>
        obtain ⟨rfl, rfl⟩ := Parsed.yields_ok.mp h
        obtain ⟨shorter', hread⟩ := finds_patternBody_append ⟨shorter, hbody⟩ more
        have hletters : Halts isAsciiLetter (behind.dropWhile isAsciiLetter ++ more) :=
          halts_of_goesOn hrest fun c hc =>
            goesOn_of_isNameChar (isNameChar_of_isAsciiLetter hc)
        obtain ⟨hflags, hbehind⟩ := takeWhile_append_more hletters
        rw [List.cons_append, pattern, hread]
        simp only [if_neg hsource]
        refine Parsed.yields_ok.mpr ⟨?_, hbehind⟩
        exact congrArg (fun flags => Pattern.mk (String.ofList source) (String.ofList flags)) hflags

/-! ## Paths and words -/

def Segment.shift (count : Nat) (part : Segment) : Segment :=
  { part with left := part.left + count }

section Paths

variable {text rest more : List Char}

theorem yields_segment_append {first : Bool} {part : Segment}
    (h : Parsed.Yields (segment first text) part rest) (hrest : Halts isNameChar (rest ++ more)) :
    Parsed.Yields (segment first (text ++ more)) (part.shift more.length) (rest ++ more) := by
  cases text with
  | nil => exact absurd h Parsed.not_yields_error
  | cons c text =>
    have hlength : (c :: (text ++ more)).length = (c :: text).length + more.length := by
      rw [← List.cons_append, List.length_append]
    rw [segment] at h
    rw [List.cons_append, segment]
    split at h
    · next hquote =>
      obtain ⟨name, hname, rfl⟩ := h.exists_of_map
        (fun name => Segment.mk name true (c :: text).length) (fun _ => rfl) fun _ => rfl
      have hread := yields_quoted_append hname more
      rw [if_pos hquote, hlength]
      exact hread.map _ (fun name => Segment.mk name true ((c :: text).length + more.length))
        (fun _ => rfl) fun _ => rfl
    · next hquote =>
      split at h
      · exact absurd h Parsed.not_yields_error
      · next hdigit =>
        split at h
        · next p hp =>
          obtain ⟨rfl, rfl⟩ := Parsed.yields_ok.mp h
          have hrun := finds_takeRun?_append ⟨p.shorter, hp⟩ hrest
          rw [List.cons_append] at hrun
          obtain ⟨shorter, hrun⟩ := hrun
          rw [if_neg hquote, if_neg hdigit, hrun]
          refine Parsed.yields_ok.mpr ⟨?_, rfl⟩
          exact congrArg (Segment.mk (String.ofList p.value) false) hlength
        · exact absurd h Parsed.not_yields_error

/-- What is left for the parts that follow does not go on with the part before them. -/
theorem halts_of_moreSegments {parts : List Segment}
    (h : Continued.Yields (moreSegments text) parts rest) (hrest : Halts goesOn (rest ++ more)) :
    Halts isNameChar (text ++ more) := by
  unfold moreSegments at h
  split at h
  · exact halts_cons (by decide)
  · obtain ⟨-, rfl⟩ := Continued.yields_ok.mp h
    exact halts_isNameChar hrest

theorem yields_moreSegments_append {parts : List Segment}
    (h : Continued.Yields (moreSegments text) parts rest) (hrest : Halts goesOn (rest ++ more)) :
    Continued.Yields (moreSegments (text ++ more)) (parts.map (Segment.shift more.length))
      (rest ++ more) := by
  fun_induction moreSegments text generalizing parts with
  | case1 text failure hread => exact absurd h Continued.not_yields_error
  | case2 text part middle shorter hread ih =>
    obtain ⟨others, hothers, rfl⟩ := h.exists_of_map (part :: ·) (fun _ => rfl) fun _ => rfl
    have hmiddle := halts_of_moreSegments hothers hrest
    have hpart := yields_segment_append ⟨shorter, hread⟩ hmiddle
    exact moreSegments_dot hpart (ih hothers)
  | case3 text hdot =>
    obtain ⟨rfl, rfl⟩ := Continued.yields_ok.mp h
    exact moreSegments_stop hrest

/-- A path is read part by part. -/
theorem yields_segments_iff {parts : List Segment} :
    Parsed.Yields (segments text) parts rest ↔
      ∃ part middle others, Parsed.Yields (segment true text) part middle ∧
        Continued.Yields (moreSegments middle) others rest ∧ parts = part :: others := by
  rw [segments, Parsed.yields_bind_iff]
  constructor
  · intro h
    obtain ⟨p, hpart, h⟩ := h
    obtain ⟨q, hmore, h⟩ := Parsed.yields_bind_iff.mp h
    obtain ⟨rfl, rfl⟩ := Parsed.yields_ok.mp h
    exact ⟨p.value, p.rest, q.value, ⟨p.shorter, hpart⟩, ⟨q.notLonger, hmore⟩, rfl⟩
  · intro hparts
    obtain ⟨part, middle, others, ⟨shorter, hpart⟩, ⟨notLonger, hmore⟩, rfl⟩ := hparts
    refine ⟨_, hpart, Parsed.yields_bind_iff.mpr ⟨_, hmore, ?_⟩⟩
    exact Parsed.yields_ok.mpr ⟨rfl, rfl⟩

theorem yields_segments_append {parts : List Segment}
    (h : Parsed.Yields (segments text) parts rest) (hrest : Halts goesOn (rest ++ more)) :
    Parsed.Yields (segments (text ++ more)) (parts.map (Segment.shift more.length))
      (rest ++ more) := by
  obtain ⟨part, middle, others, hpart, hothers, rfl⟩ := yields_segments_iff.mp h
  have hlonger := yields_segment_append hpart (halts_of_moreSegments hothers hrest)
  exact yields_segments_iff.mpr
    ⟨_, _, _, hlonger, yields_moreSegments_append hothers hrest, rfl⟩

theorem splitNamespace_shift (count : Nat) (parts : List Segment) :
    splitNamespace (parts.map (Segment.shift count)) =
      ((splitNamespace parts).1, (splitNamespace parts).2.map (Segment.shift count)) := by
  cases parts with
  | nil => rfl
  | cons part parts =>
    have hns : (part.shift count).namespace? = part.namespace? := rfl
    rw [List.map_cons, splitNamespace, splitNamespace, hns]
    split <;> rfl

theorem keyFree_shift {parts : List Segment} {names : List String}
    (h : keyFree parts = .ok names) (count : Nat) :
    keyFree (parts.map (Segment.shift count)) = .ok names := by
  induction parts generalizing names with
  | nil => exact h
  | cons part parts ih =>
    have hkey : (part.shift count).isOperatorKey = part.isOperatorKey := rfl
    rw [keyFree] at h
    rw [List.map_cons, keyFree, hkey]
    split at h
    · cases h
    · next hplain =>
      rw [if_neg hplain]
      cases hrest : keyFree parts with
      | error failure =>
        rw [hrest] at h
        cases h
      | ok others =>
        rw [hrest] at h
        rw [ih hrest]
        exact h

theorem yields_valuePath_iff {path : AttributePath} :
    Parsed.Yields (valuePath text) path rest ↔
      ∃ parts, Parsed.Yields (segments text) parts rest ∧
        ∃ names, keyFree (splitNamespace parts).2 = .ok names ∧
          path = ⟨(splitNamespace parts).1, names, none⟩ := by
  rw [valuePath, Parsed.yields_bind_iff]
  constructor
  · intro h
    obtain ⟨p, hsegments, h⟩ := h
    obtain ⟨names, hnames, h⟩ := Parsed.yields_bind_iff.mp h
    obtain ⟨hpath, rfl⟩ := Parsed.yields_ok.mp h
    exact ⟨p.value, ⟨p.shorter, hsegments⟩, names, hnames, hpath.symm⟩
  · intro hparts
    obtain ⟨parts, ⟨shorter, hsegments⟩, names, hnames, rfl⟩ := hparts
    refine ⟨_, hsegments, Parsed.yields_bind_iff.mpr ⟨names, hnames, ?_⟩⟩
    exact Parsed.yields_ok.mpr ⟨rfl, rfl⟩

theorem local_valuePath : Local valuePath := by
  intro text path rest more h hrest
  obtain ⟨parts, hsegments, names, hnames, rfl⟩ := yields_valuePath_iff.mp h
  have hlonger := yields_segments_append hsegments hrest
  refine yields_valuePath_iff.mpr ⟨_, hlonger, names, ?_, ?_⟩
  · rw [splitNamespace_shift]
    exact keyFree_shift hnames more.length
  · rw [splitNamespace_shift]

/-- Where a text is a name, a path takes all of it. -/
theorem eq_nil_of_valuePath {run : List Char} {path : AttributePath}
    (hrun : Parsed.Finds (takeRun? isNameChar text) run [])
    (h : Parsed.Yields (valuePath text) path rest) : rest = [] := by
  obtain ⟨parts, hsegments, -⟩ := yields_valuePath_iff.mp h
  obtain ⟨part, middle, others, hpart, hothers, -⟩ := yields_segments_iff.mp hsegments
  obtain ⟨c, behind, rfl⟩ := exists_cons_of_yields _ hpart
  obtain ⟨shorter, hrun⟩ := hrun
  have hc : isNameChar c = true := by
    rw [takeRun?] at hrun
    split at hrun
    · next hc => exact hc
    · cases hrun
  have hmiddle : middle = [] := by
    rw [segment, isQuote_eq_false hc, if_neg Bool.false_ne_true, hrun] at hpart
    split at hpart
    · exact absurd hpart Parsed.not_yields_error
    · exact (Parsed.yields_ok.mp hpart).2.symm
  subst hmiddle
  obtain ⟨notLonger, -⟩ := hothers
  exact List.eq_nil_of_length_eq_zero (Nat.le_zero.mp notLonger)

/-- A word stands for a value unless a dot is behind it. -/
theorem finds_wordValue_iff {run behind : List Char} {value : Value}
    (h : Parsed.Finds (takeRun? isNameChar text) run rest) :
    Parsed.Finds (wordValue text) value behind ↔
      rest.head? ≠ some '.' ∧ wordValue? run = some value ∧ behind = rest := by
  obtain ⟨shorter, h⟩ := h
  rw [wordValue, h, Option.bind_some]
  dsimp only
  split
  · next hdot => exact iff_of_false Parsed.not_finds_none fun hword => hword.1 hdot
  · next hdot =>
    cases hvalue : wordValue? run with
    | none => simp
    | some v => simp [hdot, eq_comm]

/-- A text that is read as a path is not read as a value where more stands behind it. -/
theorem wordValue_append_eq_none {path : AttributePath} (hnone : wordValue text = none)
    (hpath : Parsed.Yields (valuePath text) path rest) (hrest : Halts goesOn (rest ++ more)) :
    wordValue (text ++ more) = none := by
  cases hrun : takeRun? isNameChar text with
  | none =>
    obtain ⟨parts, hsegments, -⟩ := yields_valuePath_iff.mp hpath
    obtain ⟨c, behind, rfl⟩ := exists_cons_of_yields segments hsegments
    rw [takeRun?, ite_eq_right_iff] at hrun
    have hc : ¬isNameChar c = true := by
      intro hc
      cases hrun hc
    rw [wordValue, List.cons_append, takeRun?, if_neg hc, Option.bind_none]
  | some q =>
    have hfinds : Parsed.Finds (takeRun? isNameChar text) q.value q.rest := ⟨q.shorter, hrun⟩
    have hhalts : Halts isNameChar (q.rest ++ more) := by
      cases hbehind : q.rest with
      | nil =>
        obtain rfl := eq_nil_of_valuePath (hbehind ▸ hfinds) hpath
        exact halts_isNameChar hrest
      | cons d behind =>
        obtain ⟨-, -, -, hstop⟩ := takeRun?_eq_some hrun
        exact halts_cons (hstop d (by rw [hbehind]; rfl))
    have hlonger := finds_takeRun?_append hfinds hhalts
    cases hword : wordValue (text ++ more) with
    | none => rfl
    | some p =>
      -- Then the text on its own is read as the same value.
      obtain ⟨hdot, hvalue, -⟩ := (finds_wordValue_iff hlonger).mp ⟨p.shorter, hword⟩
      have hdot' : q.rest.head? ≠ some '.' := fun hhead =>
        hdot (by rw [List.head?_append, hhead, Option.some_or])
      have hshorter := (finds_wordValue_iff hfinds).mpr ⟨hdot', hvalue, rfl⟩
      rw [hnone] at hshorter
      exact absurd hshorter Parsed.not_finds_none

theorem local_wordOrPath : Local wordOrPath := by
  intro text e rest more h hrest
  rw [wordOrPath] at h
  split at h
  · next p hp =>
    obtain ⟨rfl, rfl⟩ := Parsed.yields_ok.mp h
    obtain ⟨q, hq, -⟩ := Option.bind_eq_some_iff.mp hp
    have hfinds : Parsed.Finds (takeRun? isNameChar text) q.value q.rest := ⟨q.shorter, hq⟩
    obtain ⟨-, hvalue, hbehind⟩ := (finds_wordValue_iff hfinds).mp ⟨p.shorter, hp⟩
    rw [← hbehind] at hfinds
    have hdot : (p.rest ++ more).head? ≠ some '.' := fun hhead =>
      absurd (hrest '.' hhead) (by decide)
    have hlonger := finds_takeRun?_append hfinds (halts_isNameChar hrest)
    obtain ⟨shorter, hword⟩ := (finds_wordValue_iff hlonger).mpr ⟨hdot, hvalue, rfl⟩
    rw [wordOrPath, hword]
    exact Parsed.yields_ok.mpr ⟨rfl, rfl⟩
  · next hnone =>
    obtain ⟨path, hpath, rfl⟩ := h.exists_of_map Expr.path (fun _ => rfl) fun _ => rfl
    have hlonger := local_valuePath _ _ _ _ hpath hrest
    rw [wordOrPath, wordValue_append_eq_none hnone hpath hrest]
    exact hlonger.map _ Expr.path (fun _ => rfl) fun _ => rfl

theorem local_objectKey : Local objectKey := by
  intro text key rest more h hrest
  cases text with
  | nil => exact absurd h Parsed.not_yields_error
  | cons c text =>
    rw [objectKey] at h
    rw [List.cons_append, objectKey]
    split at h
    · next hquote =>
      have hlonger := yields_quoted_append h more
      rw [if_pos hquote]
      exact hlonger
    · next hquote =>
      split at h
      · next p hp =>
        obtain ⟨rfl, rfl⟩ := Parsed.yields_ok.mp h
        have hrun := finds_takeRun?_append ⟨p.shorter, hp⟩ (halts_isNameChar hrest)
        rw [List.cons_append] at hrun
        obtain ⟨shorter, hrun⟩ := hrun
        rw [if_neg hquote, hrun]
        exact Parsed.yields_ok.mpr ⟨rfl, rfl⟩
      · exact absurd h Parsed.not_yields_error

end Paths

end Abac.Rule
