import Abac.Comparison

/-!
Membership in a list of candidates, against equality. A membership test looks at the elements of an
array and at any other value itself (`Value.memberOf_iff`). Equality looks into an array too, but
only for an operand that is no array, and for a pattern only at the strings right inside it. So
membership is equality of the whole value with some candidate where both tests look at the elements
(`Value.ComparesByElement.accepts_iff`), and otherwise equality of the value or of one of its
elements (`Operator.membership_iff`).
-/
namespace Abac

namespace Value

def tested : Value → List Value
  | .array items => items
  | value => [value]

def withElements : Value → List Value
  | .array items => .array items :: items
  | value => [value]

theorem tested_of_not_isArray {value : Value} (h : value.isArray = false) :
    value.tested = [value] := by
  cases value with
  | array items => cases h
  | _ => rfl

theorem exists_items_of_isArray {value : Value} (h : value.isArray = true) :
    ∃ items, value = .array items := by
  cases value with
  | array items => exact ⟨items, rfl⟩
  | _ => cases h

theorem tested_subset {value : Value} : value.tested ⊆ value.withElements := by
  cases value with
  | array items => exact List.subset_cons_self _ _
  | _ => exact List.Subset.refl _

theorem eq_or_mem_tested {value v : Value} (h : v ∈ value.withElements) :
    v = value ∨ v ∈ value.tested := by
  cases value with
  | array items => exact List.mem_cons.mp h
  | _ => exact .inr h

theorem memberOf_iff {value : Value} {candidates : List Value} :
    value.memberOf candidates = true ↔
      ∃ v ∈ value.tested, ∃ c ∈ candidates, c.accepts v = true := by
  cases hvalue : value.isArray with
  | true =>
    obtain ⟨items, rfl⟩ := exists_items_of_isArray hvalue
    simp [memberOf, tested]
  | false =>
    have hmember : value.memberOf candidates = candidates.any fun c => c.accepts value := by
      cases value with
      | array items => cases hvalue
      | _ => rfl
    simp [hmember, tested_of_not_isArray hvalue]

/-! ## Equality with an array -/

/-- A pattern accepts exactly the values that it matches. -/
theorem accepts_regex (p : Pattern) (value : Value) :
    (Value.regex p).accepts value = value.matchesPattern p := by
  cases value <;> rfl

theorem acceptsAny_iff {operand : Value} {items : List Value} :
    acceptsAny operand items = true ↔ ∃ item ∈ items, operand.accepts item = true := by
  induction items with
  | nil => simp [acceptsAny]
  | cons item rest ih => simp [acceptsAny, ih]

/-- In an array a pattern matches strings only, and in no array inside it. -/
theorem matchesPattern_array_iff {p : Pattern} {items : List Value} :
    (Value.array items).matchesPattern p = true ↔
      ∃ item ∈ items, item.isArray = false ∧ item.matchesPattern p = true := by
  unfold matchesPattern
  cases p.compile? with
  | none => simp
  | some compiled =>
    change (items.any fun item => item.string?.any compiled.isMatch) = true ↔ _
    rw [List.any_eq_true]
    refine exists_congr fun item => and_congr_right fun _ => ?_
    cases item <;> simp [string?, isArray]

/-- An operand that is neither an array nor a pattern accepts an array through its elements. -/
theorem accepts_array_of_plain {operand : Value} (harray : operand.isArray = false)
    (hregex : ∀ p, operand ≠ .regex p) {items : List Value} :
    operand.accepts (.array items) = true ↔ ∃ item ∈ items, operand.accepts item = true := by
  rw [← acceptsAny_iff]
  cases operand with
  | array items => cases harray
  | regex p => exact absurd rfl (hregex p)
  | _ => exact Iff.rfl

/-- An operand that is no array accepts an array only if it accepts one of its elements. -/
theorem exists_tested_of_accepts {operand value : Value} (harray : operand.isArray = false)
    (h : operand.accepts value = true) : ∃ v ∈ value.tested, operand.accepts v = true := by
  cases hvalue : value.isArray with
  | false =>
    rw [tested_of_not_isArray hvalue]
    exact ⟨value, List.mem_singleton_self value, h⟩
  | true =>
    obtain ⟨items, rfl⟩ := exists_items_of_isArray hvalue
    by_cases hregex : ∃ p, operand = .regex p
    · obtain ⟨p, rfl⟩ := hregex
      rw [accepts_regex, matchesPattern_array_iff] at h
      obtain ⟨item, hitem, -, hmatch⟩ := h
      exact ⟨item, hitem, (accepts_regex p item).trans hmatch⟩
    · have hplain : ∀ p, operand ≠ .regex p := fun p hp => hregex ⟨p, hp⟩
      exact (accepts_array_of_plain harray hplain).mp h

/-- A candidate is compared with the elements of an array, whether the test is for equality or for
membership: it is no array, and no pattern beside an array that holds arrays. -/
def ComparesByElement (value candidate : Value) : Prop :=
  candidate.isArray = false ∧
    ((∀ p, candidate ≠ .regex p) ∨ ∀ v ∈ value.tested, v.isArray = false)

theorem ComparesByElement.accepts_iff {value candidate : Value}
    (h : value.ComparesByElement candidate) :
    candidate.accepts value = true ↔ ∃ v ∈ value.tested, candidate.accepts v = true := by
  obtain ⟨harray, hplain⟩ := h
  refine ⟨exists_tested_of_accepts harray, ?_⟩
  intro hexists
  obtain ⟨v, hv, haccepts⟩ := hexists
  cases hvalue : value.isArray with
  | false =>
    rw [tested_of_not_isArray hvalue, List.mem_singleton] at hv
    exact hv ▸ haccepts
  | true =>
    obtain ⟨items, rfl⟩ := exists_items_of_isArray hvalue
    by_cases hregex : ∃ p, candidate = .regex p
    · obtain ⟨p, rfl⟩ := hregex
      have hflat := hplain.resolve_left fun hne => hne p rfl
      rw [accepts_regex] at haccepts ⊢
      exact matchesPattern_array_iff.mpr ⟨v, hv, hflat v hv, haccepts⟩
    · have hne : ∀ p, candidate ≠ .regex p := fun p hp => hregex ⟨p, hp⟩
      exact (accepts_array_of_plain harray hne).mpr ⟨v, hv, haccepts⟩

end Value

namespace Operator

variable {value : Value} {candidates : List Value}

theorem holds_eq_iff {operand : Value} :
    eq.holds (some value) operand = true ↔ operand.accepts value = true :=
  Iff.rfl

theorem holds_member_iff :
    member.holds (some value) (.array candidates) = true ↔
      ∃ v ∈ value.tested, ∃ c ∈ candidates, eq.holds (some v) c = true :=
  Value.memberOf_iff

/-- Against a list the two membership tests are opposites. -/
theorem holds_notMember_iff {P : Prop}
    (h : member.holds (some value) (.array candidates) = true ↔ P) :
    notMember.holds (some value) (.array candidates) = true ↔ ¬P := by
  have hopposite : notMember.holds (some value) (.array candidates) =
      !member.holds (some value) (.array candidates) := rfl
  rw [hopposite, Bool.not_eq_true', ← Bool.not_eq_true, h]

/-- Where every candidate is compared with the elements of an array by either test, membership is
equality of the whole value with some candidate. -/
theorem holds_member_iff_exists_eq
    (h : value.isArray = false ∨ ∀ c ∈ candidates, value.ComparesByElement c) :
    member.holds (some value) (.array candidates) = true ↔
      ∃ c ∈ candidates, eq.holds (some value) c = true := by
  rw [holds_member_iff]
  rcases h with hvalue | hcandidates
  · simp [Value.tested_of_not_isArray hvalue]
  · have hcandidate : ∀ c ∈ candidates, eq.holds (some value) c = true ↔
        ∃ v ∈ value.tested, eq.holds (some v) c = true :=
      fun c hc => (hcandidates c hc).accepts_iff
    constructor
    · intro hmember
      obtain ⟨v, hv, c, hc, heq⟩ := hmember
      exact ⟨c, hc, (hcandidate c hc).mpr ⟨v, hv, heq⟩⟩
    · intro hequal
      obtain ⟨c, hc, heq⟩ := hequal
      obtain ⟨v, hv, heq⟩ := (hcandidate c hc).mp heq
      exact ⟨v, hv, c, hc, heq⟩

/-- Where an array is not equal to an array among the candidates, membership is equality of the
value or of one of its elements with some candidate. -/
theorem holds_member_iff_exists_withElements
    (h : value.isArray = true → ∀ c ∈ candidates, c.isArray = true →
      eq.holds (some value) c = false) :
    member.holds (some value) (.array candidates) = true ↔
      ∃ v ∈ value.withElements, ∃ c ∈ candidates, eq.holds (some v) c = true := by
  rw [holds_member_iff]
  constructor
  · intro hmember
    obtain ⟨v, hv, c, hc, heq⟩ := hmember
    exact ⟨v, Value.tested_subset hv, c, hc, heq⟩
  · intro hequal
    obtain ⟨v, hv, c, hc, heq⟩ := hequal
    rcases Value.eq_or_mem_tested hv with rfl | hv
    · cases harray : c.isArray with
      | false =>
        have haccepts := holds_eq_iff.mp heq
        obtain ⟨v, hv, haccepts⟩ := Value.exists_tested_of_accepts harray haccepts
        exact ⟨v, hv, c, hc, haccepts⟩
      | true =>
        have hvalue : v.isArray = false := by
          rw [← Bool.not_eq_true]
          intro hvalue
          rw [h hvalue c hc harray] at heq
          cases heq
        exact ⟨v, by simp [Value.tested_of_not_isArray hvalue], c, hc, heq⟩
    · exact ⟨v, hv, c, hc, heq⟩

/-- A value that is no array, and an array whose elements either test compares with the candidates,
is a member of a list if it equals one of the candidates, and no member if it equals none. An array
beside other candidates is a member if it or one of its elements equals one of them, and no member
if neither it nor any of its elements does; a candidate that is an array equal to it as a whole is
left out here. -/
theorem membership_iff (value : Value) (candidates : List Value) :
    ((value.isArray = false ∨ ∀ c ∈ candidates, value.ComparesByElement c) →
      (member.holds (some value) (.array candidates) = true ↔
        ∃ c ∈ candidates, eq.holds (some value) c = true) ∧
      (notMember.holds (some value) (.array candidates) = true ↔
        ∀ c ∈ candidates, eq.holds (some value) c = false)) ∧
    ((value.isArray = true → ∀ c ∈ candidates, c.isArray = true →
        eq.holds (some value) c = false) →
      (member.holds (some value) (.array candidates) = true ↔
        ∃ v ∈ value.withElements, ∃ c ∈ candidates, eq.holds (some v) c = true) ∧
      (notMember.holds (some value) (.array candidates) = true ↔
        ∀ v ∈ value.withElements, ∀ c ∈ candidates, eq.holds (some v) c = false)) := by
  constructor
  · intro h
    have hmember := holds_member_iff_exists_eq h
    have hnotMember := holds_notMember_iff hmember
    exact ⟨hmember, by simpa using hnotMember⟩
  · intro h
    have hmember := holds_member_iff_exists_withElements h
    have hnotMember := holds_notMember_iff hmember
    exact ⟨hmember, by simpa using hnotMember⟩

def authors : Value := .array [.string "ada", .string "ben"]

def authorLists : Value := .array [authors]

/-- An array with a name that it holds, and an array of arrays with one of these. -/
theorem membership_iff_authors :
    ((∀ c ∈ [Value.string "eve", .string "ben"], authors.ComparesByElement c) ∧
      (member.holds (some authors) (.array [.string "eve", .string "ben"]) = true ↔
        ∃ c ∈ [Value.string "eve", .string "ben"], eq.holds (some authors) c = true)) ∧
    eq.holds (some authorLists) authors = false ∧
      (member.holds (some authorLists) (.array [authors]) = true ↔
        ∃ v ∈ authorLists.withElements, ∃ c ∈ [authors], eq.holds (some v) c = true) := by
  have hcompares : ∀ c ∈ [Value.string "eve", .string "ben"], authors.ComparesByElement c := by
    intro c hc
    simp only [List.mem_cons, List.not_mem_nil, or_false] at hc
    rcases hc with rfl | rfl <;> exact ⟨rfl, .inl fun p hp => nomatch hp⟩
  have hapart : eq.holds (some authorLists) authors = false := by decide
  have hlists : authorLists.isArray = true → ∀ c ∈ [authors], c.isArray = true →
      eq.holds (some authorLists) c = false := by
    intro _ c hc _
    exact List.mem_singleton.mp hc ▸ hapart
  have hnames := (membership_iff authors [.string "eve", .string "ben"]).1 (.inr hcompares)
  have hinner := (membership_iff authorLists [authors]).2 hlists
  exact ⟨⟨hcompares, hnames.1⟩, hapart, hinner.1⟩

/-- An array that holds a candidate which is an array is a member, and does not equal it. -/
theorem member_of_inner_array :
    ¬((member.holds (some authorLists) (.array [authors]) = true ↔
        ∃ c ∈ [authors], eq.holds (some authorLists) c = true) ∧
      (notMember.holds (some authorLists) (.array [authors]) = true ↔
        ∀ c ∈ [authors], eq.holds (some authorLists) c = false)) := by
  have hmember : member.holds (some authorLists) (.array [authors]) = true := by decide
  have hunequal : eq.holds (some authorLists) authors = false := by decide
  intro h
  obtain ⟨c, hc, hequal⟩ := h.1.mp hmember
  rw [List.mem_singleton.mp hc, hunequal] at hequal
  cases hequal

end Operator

end Abac
