import Abac.Proofs.Rule.Tokens

/-!
How paths are written, and that they are read back. The name of the namespace stands in front, and
a dot before each part that follows. A segment stands bare if it is a name that does not start with
a dollar sign, or else as a string; an operator key is a bare name that does start with one, and
stands last.
-/
namespace Abac.Rule

inductive SegmentText (name : String) : List Char → Prop where
  | bare (hname : IsName name) (hdollar : isDollarKey name = false) : SegmentText name name.toList
  | string {text : List Char} (h : StringText name text) : SegmentText name text

inductive PartsText : List String → Option String → List Char → Prop where
  | nil : PartsText [] none []
  | key {key : String} (hname : IsName key) (hdollar : isDollarKey key = true) :
      PartsText [] (some key) ('.' :: key.toList)
  | segment {name : String} {names : List String} {key : Option String} {first rest : List Char}
      (hfirst : SegmentText name first) (hrest : PartsText names key rest) :
      PartsText (name :: names) key ('.' :: (first ++ rest))

inductive PathText (path : AttributePath) : List Char → Prop where
  | mk {parts : List Char} (h : PartsText path.segments path.key parts) :
      PathText path (path.ns.name.toList ++ parts)

theorem exists_segmentText (name : String) : ∃ text, SegmentText name text := by
  obtain ⟨text, htext⟩ := exists_stringText name
  exact ⟨text, .string htext⟩

/-- Every path can be written whose key, if it has one, is a name that starts with a dollar sign. -/
theorem exists_pathText {path : AttributePath}
    (hkey : ∀ key, path.key = some key → IsName key ∧ isDollarKey key = true) :
    ∃ text, PathText path text := by
  have hparts : ∀ names : List String, ∃ text, PartsText names path.key text := by
    intro names
    induction names with
    | nil =>
      cases hpath : path.key with
      | none => exact ⟨[], .nil⟩
      | some key => exact ⟨_, .key (hkey key hpath).1 (hkey key hpath).2⟩
    | cons name names ih =>
      obtain ⟨rest, hrest⟩ := ih
      obtain ⟨first, hfirst⟩ := exists_segmentText name
      exact ⟨_, .segment hfirst hrest⟩
  obtain ⟨text, htext⟩ := hparts path.segments
  exact ⟨_, .mk htext⟩

/-- What stands behind a path does not go on with any part of it. -/
theorem PartsText.halts {names : List String} {key : Option String} {text rest : List Char}
    (h : PartsText names key text) (hrest : Halts goesOn rest) :
    Halts isNameChar (text ++ rest) := by
  cases h with
  | nil => exact halts_isNameChar hrest
  | key _ _ => exact halts_cons (by decide)
  | segment _ _ => exact halts_cons (by decide)

theorem yields_segment {name : String} {text : List Char} (h : SegmentText name text)
    {rest : List Char} (hrest : Halts isNameChar rest) :
    ∃ part, Parsed.Yields (segment false (text ++ rest)) part rest ∧ part.name = name ∧
      part.isOperatorKey = false := by
  cases h with
  | bare hname hdollar =>
    obtain ⟨left, hyields⟩ := yields_segment_name hname false (fun _ _ => rfl) hrest
    exact ⟨_, hyields, rfl, hdollar⟩
  | string h =>
    obtain ⟨hquote, hescapes⟩ := h
    next quote body =>
    have hread := yields_quoted hquote hescapes rest
    refine ⟨⟨name, true, (quote :: (body ++ quote :: rest)).length⟩, ?_, rfl, rfl⟩
    rw [List.cons_append, List.append_assoc, List.singleton_append, segment, if_pos hquote]
    exact (Parsed.yields_map _ (fun s => Segment.mk s true _) (fun _ => rfl) fun _ => rfl).mpr
      ⟨name, hread, rfl⟩

theorem moreSegments_stop {rest : List Char} (h : Halts goesOn rest) :
    Continued.Yields (moreSegments rest) [] rest := by
  unfold moreSegments
  split
  · next text more => exact absurd (h '.' rfl) (by decide)
  · exact Continued.yields_ok.mpr ⟨rfl, rfl⟩

/-- A part behind a dot is read, and then the parts behind it. -/
theorem moreSegments_dot {text middle rest : List Char} {part : Segment} {parts : List Segment}
    (hpart : Parsed.Yields (segment false text) part middle)
    (hparts : Continued.Yields (moreSegments middle) parts rest) :
    Continued.Yields (moreSegments ('.' :: text)) (part :: parts) rest := by
  obtain ⟨shorter, hpart⟩ := hpart
  obtain ⟨notLonger, hparts⟩ := hparts
  rw [moreSegments, hpart]
  simp only [hparts, Except.map]
  exact Continued.yields_ok.mpr ⟨rfl, rfl⟩

/-- The parts of a path are read back, with the key as the last one. -/
theorem yields_moreSegments {names : List String} {key : Option String} {text rest : List Char}
    (h : PartsText names key text) (hrest : Halts goesOn rest) :
    ∃ parts, Continued.Yields (moreSegments (text ++ rest)) parts rest ∧
      splitKey parts = .ok (names, key) ∧ (key = none → keyFree parts = .ok names) := by
  induction h with
  | nil => exact ⟨[], moreSegments_stop hrest, rfl, fun _ => rfl⟩
  | @key key hname hdollar =>
    obtain ⟨left, hyields⟩ := yields_segment_name hname false (fun _ _ => rfl)
      (halts_isNameChar hrest)
    refine ⟨_, moreSegments_dot hyields (moreSegments_stop hrest), ?_, nofun⟩
    have hkey : (Segment.mk key false left).isOperatorKey = true := hdollar
    rw [splitKey, if_pos hkey]
    rfl
  | @segment name names key first more hfirst hmore ih =>
    obtain ⟨part, hpart, hname, hplain⟩ := yields_segment hfirst (hmore.halts hrest)
    obtain ⟨parts, hparts, hsplit, hfree⟩ := ih
    refine ⟨part :: parts, ?_, ?_, fun hnone => ?_⟩
    · rw [List.cons_append, List.append_assoc]
      exact moreSegments_dot hpart hparts
    · rw [splitKey, hplain, hsplit, hname]
      rfl
    · rw [keyFree, hplain, hfree hnone, hname]
      rfl

/-- The name of a namespace is a name that no digit starts. -/
theorem isName_namespace (ns : Namespace) :
    IsName ns.name ∧ Halts Digits.isDecimal ns.name.toList := by
  cases ns <;> exact ⟨by decide, by decide⟩

theorem splitNamespace_name (ns : Namespace) (left : Nat) (parts : List Segment) :
    splitNamespace (⟨ns.name, false, left⟩ :: parts) = (ns, parts) := by
  cases ns <;> rfl

/-- A path is read as its namespace and its parts. -/
theorem yields_segments {path : AttributePath} {text rest : List Char} (h : PathText path text)
    (hrest : Halts goesOn rest) :
    ∃ left parts, Parsed.Yields (segments (text ++ rest)) (⟨path.ns.name, false, left⟩ :: parts)
        rest ∧
      splitKey parts = .ok (path.segments, path.key) ∧
      (path.key = none → keyFree parts = .ok path.segments) := by
  obtain ⟨hparts⟩ := h
  next parts =>
  obtain ⟨hname, hdigit⟩ := isName_namespace path.ns
  obtain ⟨left, shorter, hfirst⟩ := yields_segment_name hname true (by simpa using hdigit)
    (hparts.halts hrest)
  obtain ⟨more, ⟨notLonger, hmore⟩, hsplit⟩ := yields_moreSegments hparts hrest
  refine ⟨left, more, ?_, hsplit⟩
  rw [List.append_assoc, segments, hfirst]
  simp only [bind, Except.bind, hmore, pure, Except.pure]
  exact Parsed.yields_ok.mpr ⟨rfl, rfl⟩

/-- The path on the left side of a rule is read back if it has an attribute or a combinator key. -/
theorem yields_assignedPath {path : AttributePath} {text rest : List Char} (h : PathText path text)
    (hpath : path.segments ≠ [] ∨ path.isCombinator = true) (hrest : Halts goesOn rest) :
    Parsed.Yields (assignedPath (text ++ rest)) path rest := by
  obtain ⟨left, parts, ⟨shorter, hsegments⟩, hsplit, -⟩ := yields_segments h hrest
  obtain ⟨ns, names, key⟩ := path
  rw [assignedPath]
  simp only [bind, Except.bind, hsegments, splitNamespace_name, hsplit]
  cases names with
  | cons name names => exact Parsed.yields_ok.mpr ⟨rfl, rfl⟩
  | nil =>
    cases key with
    | none => exact hpath.elim (absurd rfl) fun h => Bool.noConfusion h
    | some key =>
      have hkey : isCombinator key = true := hpath.elim (absurd rfl) id
      simp only [if_pos hkey]
      exact Parsed.yields_ok.mpr ⟨rfl, rfl⟩

/-- A path without a key is read back on the right side of a rule. -/
theorem yields_valuePath {path : AttributePath} {text rest : List Char} (h : PathText path text)
    (hkey : path.key = none) (hrest : Halts goesOn rest) :
    Parsed.Yields (valuePath (text ++ rest)) path rest := by
  obtain ⟨left, parts, ⟨shorter, hsegments⟩, -, hfree⟩ := yields_segments h hrest
  obtain ⟨ns, names, key⟩ := path
  obtain rfl : key = none := hkey
  rw [valuePath]
  simp only [bind, Except.bind, hsegments, splitNamespace_name, hfree rfl, pure, Except.pure]
  exact Parsed.yields_ok.mpr ⟨rfl, rfl⟩

end Abac.Rule
