import Abac.Proofs.Rule.Acceptance
import Abac.Proofs.Traversal
import Mathlib.Order.Basic
import Mathlib.Data.Nat.Basic

/-!
Where the readers of rules fail. The place of a failure is told by the number of characters from
there on, and no reader tells more of them than its text has: a reader fails at the front of its
text, or where another one fails in what is left, and what is left is shorter. A reader with some
levels left says that the values nest too deep only behind as many characters as it had levels, for
every level is entered by a bracket (`Rule.FailsWithin`). So the place that is reported for a rule
lies in its text (`Rule.within_of_statement`).
-/
namespace Abac.Rule

/-- A failure inside a text, or at its end, which lies behind `levels` characters if values nest
too deep there. -/
structure Failure.Within (levels : Nat) (text : List Char) (failure : Failure) : Prop where
  left_le : failure.left ≤ text.length
  left_add_le : failure.fault = .nestedTooDeep → failure.left + levels ≤ text.length

def FailsWithin {α : Type} (levels : Nat) (reader : Reader α) : Prop :=
  ∀ (text : List Char) (failure : Failure), reader text = .error failure →
    failure.Within levels text

variable {levels : Nat} {text rest : List Char} {failure : Failure}

theorem Failure.Within.mono (h : failure.Within levels rest) (hrest : rest.length ≤ text.length) :
    failure.Within levels text :=
  ⟨h.left_le.trans hrest, fun hdeep => (h.left_add_le hdeep).trans hrest⟩

/-- A character in front makes room for a level. -/
theorem Failure.Within.behind (h : failure.Within levels rest) {c : Char} :
    failure.Within (levels + 1) (c :: rest) :=
  ⟨Nat.le_succ_of_le h.left_le, fun hdeep => Nat.succ_le_succ (h.left_add_le hdeep)⟩

theorem within_of_failAt {α : Type} {fault : Fault}
    (h : (failAt text fault : Except Failure α) = .error failure)
    (hfault : fault ≠ .nestedTooDeep) : failure.Within levels text := by
  obtain rfl := Except.error.inj h
  exact ⟨Nat.le_refl _, fun hdeep => absurd hdeep hfault⟩

/-! ## Tokens -/

theorem failsWithin_quoted (quote : Char) : FailsWithin levels (quoted quote) := by
  intro text failure h
  cases text with
  | nil => exact within_of_failAt h (by simp)
  | cons c text =>
    rw [quoted] at h
    split at h
    · cases h
    · exact within_of_failAt h (by simp)

theorem failsWithin_pattern : FailsWithin levels pattern := by
  intro text failure h
  cases text with
  | nil => exact within_of_failAt h (by simp)
  | cons slash text =>
    rw [pattern] at h
    split at h
    · exact within_of_failAt h (by simp)
    · split at h
      · exact within_of_failAt h (by simp)
      · cases h

theorem within_of_number (h : number text = .error failure) : failure.Within levels text := by
  rw [number] at h
  split at h
  · cases h
  · exact within_of_failAt h (by simp)

theorem failsWithin_comparator : FailsWithin levels comparator := by
  intro text failure h
  unfold comparator at h
  split at h
  case h_7 => exact within_of_failAt h (by simp)
  all_goals cases h

theorem failsWithin_objectKey : FailsWithin levels objectKey := by
  intro text failure h
  cases text with
  | nil => exact within_of_failAt h (by simp)
  | cons c text =>
    rw [objectKey] at h
    split at h
    · exact failsWithin_quoted c _ _ h
    · split at h
      · cases h
      · exact within_of_failAt h (by simp)

/-! ## Paths -/

theorem failsWithin_segment (first : Bool) : FailsWithin levels (segment first) := by
  intro text failure h
  cases text with
  | nil => exact within_of_failAt h (by simp)
  | cons c text =>
    rw [segment] at h
    split at h
    · exact failsWithin_quoted c _ _ (map_eq_error_iff.mp h)
    · split at h
      · exact within_of_failAt h (by simp)
      · split at h
        · cases h
        · exact within_of_failAt h (by simp)

/-- A part of a path knows how much text there is from its start on. -/
theorem left_of_segment {first : Bool} {part : Segment} {rest : List Char}
    (h : Parsed.Yields (segment first text) part rest) : part.left = text.length := by
  cases text with
  | nil => exact absurd h Parsed.not_yields_error
  | cons c text =>
    rw [segment] at h
    split at h
    · obtain ⟨name, -, rfl⟩ := h.exists_of_map
        (fun name => Segment.mk name true (c :: text).length) (fun _ => rfl) fun _ => rfl
      rfl
    · split at h
      · exact absurd h Parsed.not_yields_error
      · split at h
        · obtain ⟨rfl, -⟩ := Parsed.yields_ok.mp h
          rfl
        · exact absurd h Parsed.not_yields_error

/-- The parts that follow fail, or start, inside the text. -/
theorem within_of_moreSegments (levels : Nat) (text : List Char) :
    match moreSegments text with
    | .ok p => ∀ part ∈ p.value, part.left ≤ text.length
    | .error failure => failure.Within levels text := by
  fun_induction moreSegments text with
  | case1 rest failure hread =>
    exact (failsWithin_segment false _ _ hread).mono (Nat.le_succ rest.length)
  | case2 rest part middle shorter hread ih =>
    have hmiddle : middle.length ≤ ('.' :: rest).length := Nat.le_of_lt (Nat.lt_succ_of_lt shorter)
    have hpart := (left_of_segment ⟨shorter, hread⟩).le.trans (Nat.le_succ rest.length)
    cases hmore : moreSegments middle with
    | error failure =>
      rw [hmore] at ih
      exact ih.mono hmiddle
    | ok p =>
      rw [hmore] at ih
      exact List.forall_mem_cons.mpr ⟨hpart, fun other hmem => (ih other hmem).trans hmiddle⟩
  | case3 text hdot => exact fun _ hmem => absurd hmem List.not_mem_nil

theorem within_of_segments (levels : Nat) (text : List Char) :
    match segments text with
    | .ok p => ∀ part ∈ p.value, part.left ≤ text.length
    | .error failure => failure.Within levels text := by
  rw [segments]
  cases hfirst : segment true text with
  | error failure => exact failsWithin_segment true _ _ hfirst
  | ok p =>
    obtain ⟨part, rest, shorter⟩ := p
    have hmore := within_of_moreSegments levels rest
    simp only [bind, Except.bind]
    cases hparts : moreSegments rest with
    | error failure =>
      rw [hparts] at hmore
      exact hmore.mono shorter.le
    | ok q =>
      rw [hparts] at hmore
      exact List.forall_mem_cons.mpr ⟨(left_of_segment ⟨shorter, hfirst⟩).le,
        fun other hmem => (hmore other hmem).trans shorter.le⟩

variable {parts : List Segment}

theorem within_of_splitKey (hparts : ∀ part ∈ parts, part.left ≤ text.length)
    (h : splitKey parts = .error failure) : failure.Within levels text := by
  induction parts with
  | nil => cases h
  | cons part parts ih =>
    rw [List.forall_mem_cons] at hparts
    rw [splitKey] at h
    split at h
    · split at h
      · cases h
      · obtain rfl := Except.error.inj h
        exact ⟨hparts.1, by simp⟩
    · rcases bind_eq_error_iff.mp h with h | ⟨_, _, h⟩
      · exact ih hparts.2 h
      · cases h

theorem within_of_keyFree (hparts : ∀ part ∈ parts, part.left ≤ text.length)
    (h : keyFree parts = .error failure) : failure.Within levels text := by
  induction parts with
  | nil => cases h
  | cons part parts ih =>
    rw [List.forall_mem_cons] at hparts
    rw [keyFree] at h
    split at h
    · obtain rfl := Except.error.inj h
      exact ⟨hparts.1, by simp⟩
    · rcases bind_eq_error_iff.mp h with h | ⟨_, _, h⟩
      · exact ih hparts.2 h
      · cases h

theorem failsWithin_assignedPath : FailsWithin levels assignedPath := by
  intro text failure h
  have hsegments := within_of_segments levels text
  rw [assignedPath] at h
  rcases bind_eq_error_iff.mp h with hfailed | ⟨p, hread, h⟩
  · rwa [hfailed] at hsegments
  · rw [hread] at hsegments
    have hparts : ∀ part ∈ (splitNamespace p.value).2, part.left ≤ text.length :=
      fun part hmem => hsegments part (mem_of_mem_splitNamespace hmem)
    rcases bind_eq_error_iff.mp h with hfailed | ⟨⟨names, key⟩, -, h⟩
    · exact within_of_splitKey hparts hfailed
    · dsimp only at h
      split at h
      · exact within_of_failAt h (by simp)
      · split at h
        · cases h
        · exact within_of_failAt h (by simp)
      · cases h

theorem failsWithin_valuePath : FailsWithin levels valuePath := by
  intro text failure h
  have hsegments := within_of_segments levels text
  rw [valuePath] at h
  rcases bind_eq_error_iff.mp h with hfailed | ⟨p, hread, h⟩
  · rwa [hfailed] at hsegments
  · rw [hread] at hsegments
    have hparts : ∀ part ∈ (splitNamespace p.value).2, part.left ≤ text.length :=
      fun part hmem => hsegments part (mem_of_mem_splitNamespace hmem)
    rcases bind_eq_error_iff.mp h with hfailed | ⟨names, -, h⟩
    · exact within_of_keyFree hparts hfailed
    · cases h

/-! ## Expressions -/

section Expressions

variable {operator? : Char → Option Arithmetic} {operand item : Reader Expr}

/-- What fails behind blanks fails in the text. -/
theorem FailsWithin.skipBlank {α : Type} {reader : Reader α} (h : FailsWithin levels reader)
    (hread : reader (Abac.skipBlank text) = .error failure) : failure.Within levels text :=
  (h _ _ hread).mono (length_skipBlank_le text)

theorem within_of_chainTail (hoperand : FailsWithin levels operand) {lhs : Expr}
    (h : chainTail operator? operand lhs text = .error failure) :
    failure.Within levels text := by
  fun_induction chainTail operator? operand lhs text with
  | case1 => cases h
  | case2 => cases h
  | case3 lhs text c more hskip op hop failure' hread =>
    obtain rfl := Except.error.inj h
    exact (hoperand.skipBlank hread).mono
      (length_lt_of_eq_cons (length_skipBlank_le text) hskip).le
  | case4 lhs text c more hskip op hop rhs middle shorter hread ih =>
    have hmore := length_lt_of_eq_cons (length_skipBlank_le text) hskip
    have hmiddle := Nat.lt_of_lt_of_le shorter (length_skipBlank_le more)
    exact (ih (map_eq_error_iff.mp h)).mono (hmiddle.trans hmore).le

theorem FailsWithin.chain (hoperand : FailsWithin levels operand) :
    FailsWithin levels (Rule.chain operator? operand) := by
  intro text failure h
  rw [Rule.chain] at h
  rcases bind_eq_error_iff.mp h with h | ⟨p, -, h⟩
  · exact hoperand _ _ h
  · rcases bind_eq_error_iff.mp h with h | ⟨_, -, h⟩
    · exact (within_of_chainTail hoperand h).mono p.shorter.le
    · cases h

theorem FailsWithin.arithmetic (hprimary : FailsWithin levels item) :
    FailsWithin levels (Rule.arithmetic item) :=
  hprimary.chain.chain

theorem FailsWithin.elements (hitem : FailsWithin levels item) :
    FailsWithin levels (Rule.elements item) := by
  intro text failure h
  fun_induction Rule.elements item text with
  | case1 text failure' hread =>
    obtain rfl := Except.error.inj h
    exact hitem _ _ hread
  | case2 text e middle shorter hread more hskip ih =>
    have hmore := length_lt_of_eq_cons (length_skipBlank_le middle) hskip
    exact (ih (map_eq_error_iff.mp h)).mono (hmore.trans shorter).le
  | case3 => cases h
  | case4 text e middle shorter hread =>
    exact (within_of_failAt h (by simp)).mono ((length_skipBlank_le middle).trans shorter.le)

theorem FailsWithin.arrayBody (hitem : FailsWithin levels item)
    (h : Rule.arrayBody item text = .error failure) : failure.Within levels text := by
  rw [Rule.arrayBody] at h
  split at h
  · cases h
  · exact hitem.elements.skipBlank (map_eq_error_iff.mp h)

theorem FailsWithin.entry (hitem : FailsWithin levels item) :
    FailsWithin levels (Rule.entry item) := by
  intro text failure h
  rw [Rule.entry] at h
  split at h
  · next hread =>
    obtain rfl := Except.error.inj h
    exact failsWithin_objectKey.skipBlank hread
  · next key middle shorter hread =>
    have hmiddle := Nat.lt_of_lt_of_le shorter (length_skipBlank_le text)
    split at h
    · next more hskip =>
      have hmore := length_lt_of_eq_cons (length_skipBlank_le middle) hskip
      exact (hitem _ _ (map_eq_error_iff.mp h)).mono (hmore.trans hmiddle).le
    · exact (within_of_failAt h (by simp)).mono ((length_skipBlank_le middle).trans hmiddle.le)

theorem FailsWithin.entries (hitem : FailsWithin levels item) :
    FailsWithin levels (Rule.entries item) := by
  intro text failure h
  fun_induction Rule.entries item text with
  | case1 text failure' hread =>
    obtain rfl := Except.error.inj h
    exact hitem.entry _ _ hread
  | case2 text entry middle shorter hread more hskip ih =>
    have hmore := length_lt_of_eq_cons (length_skipBlank_le middle) hskip
    exact (ih (map_eq_error_iff.mp h)).mono (hmore.trans shorter).le
  | case3 => cases h
  | case4 text entry middle shorter hread =>
    exact (within_of_failAt h (by simp)).mono ((length_skipBlank_le middle).trans shorter.le)

theorem FailsWithin.objectBody (hitem : FailsWithin levels item)
    (h : Rule.objectBody item text = .error failure) : failure.Within levels text := by
  rw [Rule.objectBody] at h
  split at h
  · cases h
  · exact hitem.entries.skipBlank (map_eq_error_iff.mp h)

theorem FailsWithin.parenthesized (hitem : FailsWithin levels item)
    (h : Rule.parenthesized item text = .error failure) : failure.Within levels text := by
  rw [Rule.parenthesized] at h
  split at h
  · next hread =>
    obtain rfl := Except.error.inj h
    exact hitem.skipBlank hread
  · next e middle shorter hread =>
    have hmiddle := Nat.lt_of_lt_of_le shorter (length_skipBlank_le text)
    split at h
    · cases h
    · exact (within_of_failAt h (by simp)).mono ((length_skipBlank_le middle).trans hmiddle.le)

theorem failsWithin_wordOrPath : FailsWithin levels wordOrPath := by
  intro text failure h
  rw [wordOrPath] at h
  split at h
  · cases h
  · exact failsWithin_valuePath _ _ (map_eq_error_iff.mp h)

/-- What stands inside a primary has a level less than the primary. -/
theorem FailsWithin.primaryHere (hitem : FailsWithin levels item) :
    FailsWithin (levels + 1) (Rule.primaryHere item) := by
  intro text failure h
  unfold Rule.primaryHere at h
  split at h
  · exact within_of_failAt h (by simp)
  · exact (hitem.parenthesized (map_eq_error_iff.mp h)).behind
  · exact (hitem.arrayBody (map_eq_error_iff.mp h)).behind
  · exact (hitem.objectBody (map_eq_error_iff.mp h)).behind
  · exact failsWithin_pattern _ _ (map_eq_error_iff.mp h)
  · split at h
    · exact failsWithin_quoted _ _ _ (map_eq_error_iff.mp h)
    · split at h
      · exact within_of_number (map_eq_error_iff.mp h)
      · split at h
        · exact failsWithin_wordOrPath _ _ h
        · exact within_of_failAt h (by simp)

theorem failsWithin_primary (levels : Nat) : FailsWithin levels (primary levels) := by
  induction levels with
  | zero =>
    intro text failure h
    obtain rfl := Except.error.inj h
    exact ⟨Nat.le_refl _, fun _ => Nat.le_refl _⟩
  | succ levels ih =>
    intro text failure h
    rw [primary] at h
    exact ih.arithmetic.primaryHere.skipBlank (map_eq_error_iff.mp h)

end Expressions

/-! ## Rules -/

/-- A text that is no rule fails inside of it, or at its end, and its values nest too deep only
behind as many characters as there are levels. -/
theorem within_of_statement (h : statement text = .error failure) :
    failure.Within nestingLimit text := by
  rw [statement] at h
  rcases bind_eq_error_iff.mp h with h | ⟨⟨path, afterPath, hpath⟩, -, h⟩
  · exact failsWithin_assignedPath.skipBlank h
  · have hafterPath := (hpath.trans_le (length_skipBlank_le text)).le
    have hskipped := (length_skipBlank_le afterPath).trans hafterPath
    rcases bind_eq_error_iff.mp h with h | ⟨⟨c, afterComparator, hcomparator⟩, -, h⟩
    · exact (failsWithin_comparator _ _ h).mono hskipped
    · dsimp only at h
      split at h
      · exact (within_of_failAt h (by simp)).mono hskipped
      · have hafterComparator := hcomparator.le.trans hskipped
        rcases bind_eq_error_iff.mp h with h | ⟨⟨e, trail, hexpr⟩, -, h⟩
        · exact ((failsWithin_primary nestingLimit).arithmetic.skipBlank h).mono hafterComparator
        · have htrail := (hexpr.trans_le (length_skipBlank_le afterComparator)).le
          dsimp only at h
          split at h
          · cases h
          · next hleft =>
            exact (within_of_failAt h (by simp)).mono
              (hleft ▸ ((length_skipBlank_le trail).trans (htrail.trans hafterComparator)))

end Abac.Rule
