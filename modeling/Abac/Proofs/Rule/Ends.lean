import Abac.Proofs.Rule.Locality.Numbers

/-!
What the readers of tokens leave. Each of them leaves an end of the text that it reads. A path on
the right side of a rule has no operator key, and the key of one on the left side is a name that
starts with a dollar sign, alone only if it is a combinator (`key_of_assignedPath`). What a pattern
is read from is its own text, to the letter (`text_of_pattern`).
-/
namespace Abac.Rule

variable {text rest : List Char}

theorem skipBlank_suffix (text : List Char) : skipBlank text <:+ text := List.dropWhile_suffix _

/-- The text behind the first character that is no blank is an end of the text. -/
theorem suffix_of_skipBlank {c : Char} (h : skipBlank text = c :: rest) : rest <:+ text :=
  (h ▸ List.suffix_cons c rest).trans (skipBlank_suffix text)

theorem suffix_of_takeRun? {p : Char → Bool} {run : List Char}
    (h : Parsed.Finds (takeRun? p text) run rest) : rest <:+ text := by
  obtain ⟨shorter, h⟩ := h
  exact ⟨run, (takeRun?_eq_some h).1.symm⟩

/-! ## Strings and numbers -/

theorem suffix_of_stringBody {quote : Char} {chars : List Char}
    (h : Parsed.Finds (stringBody quote text) chars rest) : rest <:+ text := by
  fun_induction stringBody quote text generalizing chars with
  | case1 => exact absurd h Parsed.not_finds_none
  | case2 =>
    obtain ⟨-, rfl⟩ := Parsed.finds_some.mp h
    exact List.suffix_cons _ _
  | case3 => exact absurd h Parsed.not_finds_none
  | case4 d rest =>
    obtain ⟨-, rfl⟩ := Parsed.finds_some.mp h
    exact List.suffix_cons _ _
  | case5 d rest hquote ih =>
    obtain ⟨inner, hinner, -⟩ := h.exists_of_map (unescape d :: ·) (fun _ => rfl) fun _ => rfl
    exact ((ih hinner).trans (List.suffix_cons d rest)).trans (List.suffix_cons '\\' _)
  | case6 c d rest hquote hbackslash ih =>
    obtain ⟨inner, hinner, -⟩ := h.exists_of_map (c :: ·) (fun _ => rfl) fun _ => rfl
    exact (ih hinner).trans (List.suffix_cons c _)

theorem suffix_of_quoted {quote : Char} {s : String}
    (h : Parsed.Yields (quoted quote text) s rest) : rest <:+ text := by
  cases text with
  | nil => exact absurd h Parsed.not_yields_error
  | cons c text =>
    rw [quoted] at h
    split at h
    · next p hp =>
      obtain ⟨-, rfl⟩ := Parsed.yields_ok.mp h
      exact (suffix_of_stringBody ⟨p.shorter, hp⟩).trans (List.suffix_cons c text)
    · exact absurd h Parsed.not_yields_error

theorem suffix_of_takeFront {α : Type} {count : Nat} {value found : α}
    (h : Parsed.Finds (takeFront count value text) found rest) : rest <:+ text := by
  cases text with
  | nil => exact absurd h Parsed.not_finds_none
  | cons c text =>
    cases count with
    | zero => exact absurd h Parsed.not_finds_none
    | succ count =>
      obtain ⟨-, rfl⟩ := Parsed.finds_some.mp h
      exact (List.drop_suffix count text).trans (List.suffix_cons c text)

theorem suffix_of_number {x : Float} (h : Parsed.Yields (number text) x rest) : rest <:+ text := by
  rw [number] at h
  split at h
  · next p hp =>
    obtain ⟨-, rfl⟩ := Parsed.yields_ok.mp h
    obtain ⟨numeral, -, hfront⟩ := Option.bind_eq_some_iff.mp hp
    exact suffix_of_takeFront ⟨p.shorter, hfront⟩
  · exact absurd h Parsed.not_yields_error

/-! ## Patterns -/

/-- The source of a pattern stands in the text as it is, up to the slash that closes it. -/
theorem eq_append_of_patternBody {inClass : Bool} {source : List Char}
    (h : Parsed.Finds (patternBody inClass text) source rest) : text = source ++ '/' :: rest := by
  fun_induction patternBody inClass text generalizing source with
  | case1 => exact absurd h Parsed.not_finds_none
  | case2 inClass c hclose =>
    obtain ⟨rfl, rfl⟩ := Parsed.finds_some.mp h
    obtain ⟨rfl, -⟩ : c = '/' ∧ inClass = false := by simpa using hclose
    rfl
  | case3 => exact absurd h Parsed.not_finds_none
  | case4 inClass d text ih =>
    obtain ⟨inner, hinner, rfl⟩ := h.exists_of_map ('\\' :: d :: ·) (fun _ => rfl) fun _ => rfl
    rw [ih hinner]
    rfl
  | case5 inClass c d text hbackslash hclose =>
    obtain ⟨rfl, rfl⟩ := Parsed.finds_some.mp h
    obtain ⟨rfl, -⟩ : c = '/' ∧ inClass = false := by simpa using hclose
    rfl
  | case6 inClass c d text hbackslash hopen ih =>
    obtain ⟨inner, hinner, rfl⟩ := h.exists_of_map (c :: ·) (fun _ => rfl) fun _ => rfl
    rw [ih hinner]
    rfl

/-- A pattern is read from its own text. Its source is not empty and its flags are letters. -/
theorem text_of_pattern {p : Pattern} (h : Parsed.Yields (pattern ('/' :: text)) p rest) :
    '/' :: text = p.text.toList ++ rest ∧ p.source ≠ "" ∧
      ∀ c ∈ p.flags.toList, isAsciiLetter c = true := by
  rw [pattern] at h
  split at h
  · exact absurd h Parsed.not_yields_error
  · next source behind shorter hbody =>
    split at h
    · exact absurd h Parsed.not_yields_error
    · next hsource =>
      obtain ⟨rfl, rfl⟩ := Parsed.yields_ok.mp h
      refine ⟨?_, ?_, ?_⟩
      · change '/' :: text =
          (Pattern.text ⟨String.ofList source,
            String.ofList (behind.takeWhile isAsciiLetter)⟩).toList ++
              behind.dropWhile isAsciiLetter
        rw [eq_append_of_patternBody ⟨shorter, hbody⟩]
        simp [Pattern.text]
      · change String.ofList source ≠ ""
        intro hempty
        exact hsource (by simpa using congrArg String.toList hempty)
      · intro c hc
        change c ∈ (String.ofList (behind.takeWhile isAsciiLetter)).toList at hc
        rw [String.toList_ofList] at hc
        exact List.all_eq_true.mp List.all_takeWhile c hc

/-! ## Paths -/

/-- A part of a path is an end of the text away, and without quotes it is a name. -/
theorem segment_ends {first : Bool} {part : Segment}
    (h : Parsed.Yields (segment first text) part rest) :
    rest <:+ text ∧ (part.quoted = false → IsName part.name) := by
  cases text with
  | nil => exact absurd h Parsed.not_yields_error
  | cons c text =>
    rw [segment] at h
    split at h
    · obtain ⟨name, hname, rfl⟩ := h.exists_of_map
        (fun name => Segment.mk name true (c :: text).length) (fun _ => rfl) fun _ => rfl
      exact ⟨suffix_of_quoted hname, fun hquoted => Bool.noConfusion hquoted⟩
    · split at h
      · exact absurd h Parsed.not_yields_error
      · split at h
        · next p hp =>
          obtain ⟨rfl, rfl⟩ := Parsed.yields_ok.mp h
          obtain ⟨-, hne, hchars, -⟩ := takeRun?_eq_some hp
          refine ⟨suffix_of_takeRun? ⟨p.shorter, hp⟩, fun _ => ?_⟩
          change IsName (String.ofList p.value)
          rw [IsName, String.toList_ofList]
          exact ⟨hne, hchars⟩
        · exact absurd h Parsed.not_yields_error

theorem moreSegments_ends {parts : List Segment}
    (h : Continued.Yields (moreSegments text) parts rest) :
    rest <:+ text ∧ ∀ part ∈ parts, part.quoted = false → IsName part.name := by
  fun_induction moreSegments text generalizing parts with
  | case1 text failure hread => exact absurd h Continued.not_yields_error
  | case2 text part middle shorter hread ih =>
    obtain ⟨others, hothers, rfl⟩ := h.exists_of_map (part :: ·) (fun _ => rfl) fun _ => rfl
    obtain ⟨hmiddle, hpart⟩ := segment_ends ⟨shorter, hread⟩
    obtain ⟨hrest, hnames⟩ := ih hothers
    exact ⟨(hrest.trans hmiddle).trans (List.suffix_cons '.' text),
      List.forall_mem_cons.mpr ⟨hpart, hnames⟩⟩
  | case3 text hdot =>
    obtain ⟨rfl, rfl⟩ := Continued.yields_ok.mp h
    exact ⟨List.suffix_rfl, fun _ hmem => absurd hmem List.not_mem_nil⟩

theorem segments_ends {parts : List Segment} (h : Parsed.Yields (segments text) parts rest) :
    rest <:+ text ∧ ∀ part ∈ parts, part.quoted = false → IsName part.name := by
  obtain ⟨part, middle, others, hpart, hothers, rfl⟩ := yields_segments_iff.mp h
  obtain ⟨hmiddle, hname⟩ := segment_ends hpart
  obtain ⟨hrest, hnames⟩ := moreSegments_ends hothers
  exact ⟨hrest.trans hmiddle, List.forall_mem_cons.mpr ⟨hname, hnames⟩⟩

/-- What is left of a path without its namespace are parts of it. -/
theorem mem_of_mem_splitNamespace {parts : List Segment} {part : Segment}
    (h : part ∈ (splitNamespace parts).2) : part ∈ parts := by
  cases parts with
  | nil => exact h
  | cons first parts =>
    rw [splitNamespace] at h
    split at h
    · exact List.mem_cons_of_mem first h
    · exact h

/-- The key of a path is the name of one of its parts, written without quotes. -/
theorem key_of_splitKey {parts : List Segment} {names : List String} {key : String}
    (h : splitKey parts = .ok (names, some key)) :
    ∃ part ∈ parts, part.name = key ∧ part.isOperatorKey = true := by
  induction parts generalizing names with
  | nil => cases h
  | cons part parts ih =>
    rw [splitKey] at h
    split at h
    · next hkey =>
      split at h
      · obtain ⟨-, hname⟩ := Prod.mk.inj (Except.ok.inj h)
        exact ⟨part, List.mem_cons_self, Option.some.inj hname, hkey⟩
      · cases h
    · cases hrest : splitKey parts with
      | error failure =>
        rw [hrest] at h
        cases h
      | ok rest =>
        obtain ⟨others, key'⟩ := rest
        rw [hrest] at h
        obtain ⟨-, rfl⟩ := Prod.mk.inj (Except.ok.inj h)
        obtain ⟨found, hmem, hfound⟩ := ih hrest
        exact ⟨found, List.mem_cons_of_mem part hmem, hfound⟩

/-- The path on the left side of a rule is what was split off the parts that were read. -/
theorem exists_of_assignedPath {path : AttributePath}
    (h : Parsed.Yields (assignedPath text) path rest) :
    ∃ parts, Parsed.Yields (segments text) parts rest ∧
      splitKey (splitNamespace parts).2 = .ok (path.segments, path.key) := by
  rw [assignedPath] at h
  obtain ⟨p, hparts, h⟩ := Parsed.yields_bind_iff.mp h
  cases hfound : splitNamespace p.value with
  | mk ns parts =>
    simp only [hfound] at h
    obtain ⟨⟨names, key⟩, hsplit, h⟩ := Parsed.yields_bind_iff.mp h
    obtain ⟨rfl, rfl⟩ : ⟨ns, names, key⟩ = path ∧ p.rest = rest := by
      dsimp only at h
      split at h
      · exact absurd h Parsed.not_yields_error
      · split at h
        · exact Parsed.yields_ok.mp h
        · exact absurd h Parsed.not_yields_error
      · exact Parsed.yields_ok.mp h
    exact ⟨p.value, ⟨p.shorter, hparts⟩, by rw [hfound, hsplit]⟩

/-- The key of the path on the left side of a rule is a name that starts with a dollar sign. -/
theorem key_of_assignedPath {path : AttributePath} {key : String}
    (h : Parsed.Yields (assignedPath text) path rest) (hkey : path.key = some key) :
    IsName key ∧ isDollarKey key = true := by
  obtain ⟨parts, hparts, hsplit⟩ := exists_of_assignedPath h
  rw [hkey] at hsplit
  obtain ⟨part, hmem, rfl, hoperator⟩ := key_of_splitKey hsplit
  obtain ⟨hquoted, hdollar⟩ := Bool.and_eq_true_iff.mp hoperator
  have hname := (segments_ends hparts).2 part (mem_of_mem_splitNamespace hmem)
  exact ⟨hname (by simpa using hquoted), hdollar⟩

theorem valuePath_ends {path : AttributePath} (h : Parsed.Yields (valuePath text) path rest) :
    rest <:+ text ∧ path.key = none := by
  obtain ⟨parts, hparts, names, -, rfl⟩ := yields_valuePath_iff.mp h
  exact ⟨(segments_ends hparts).1, rfl⟩

theorem suffix_of_assignedPath {path : AttributePath}
    (h : Parsed.Yields (assignedPath text) path rest) : rest <:+ text := by
  obtain ⟨parts, hparts, -⟩ := exists_of_assignedPath h
  exact (segments_ends hparts).1

theorem suffix_of_comparator {c : Comparator} (h : Parsed.Yields (comparator text) c rest) :
    rest <:+ text := by
  unfold comparator at h
  split at h
  case h_7 => exact absurd h Parsed.not_yields_error
  all_goals
    obtain ⟨-, rfl⟩ := Parsed.yields_ok.mp h
  · exact (List.suffix_cons '=' _).trans (List.suffix_cons '>' _)
  · exact (List.suffix_cons '=' _).trans (List.suffix_cons '<' _)
  · exact (List.suffix_cons '=' _).trans (List.suffix_cons '!' _)
  · exact List.suffix_cons '=' _
  · exact List.suffix_cons '>' _
  · exact List.suffix_cons '<' _

theorem suffix_of_objectKey {key : String} (h : Parsed.Yields (objectKey text) key rest) :
    rest <:+ text := by
  cases text with
  | nil => exact absurd h Parsed.not_yields_error
  | cons c text =>
    rw [objectKey] at h
    split at h
    · exact suffix_of_quoted h
    · split at h
      · next p hp =>
        obtain ⟨-, rfl⟩ := Parsed.yields_ok.mp h
        exact suffix_of_takeRun? ⟨p.shorter, hp⟩
      · exact absurd h Parsed.not_yields_error

end Abac.Rule
