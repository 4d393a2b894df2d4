import Abac.Proofs.Condition.Fitting

/-!
Merging a condition against making its assignments one by one. Assignments that use every attribute
in one way only, and none below another, have slots that keep out of each other's way, so every
condition built of them fits all of their slots. Merging one such condition into another therefore
makes the assignments of both, in order (`Assignment.merge_build`).
-/
namespace Abac

namespace Assignment

open Condition

/-- The ways in which assignments use an attribute: with plain values, with comparisons and
operators, or with lists of alternatives. -/
inductive Usage where
  | plain | operator | combinator
deriving DecidableEq, Repr

def Usage.Holds : Usage → Value → Prop
  | plain, value => value.isAtomic = true
  | operator, value => value.IsConstraint
  | combinator, _ => True

def usage (a : Assignment) : Usage :=
  match a.key with
  | some key => if isCombinator key then .combinator else .operator
  | none => if a.comparator = .eq then .plain else .operator

/-- Assignments are compatible if they use each attribute in one way only, none at the outermost
object but alternatives, and none below another; if dollar signs start operator keys and no
segment; and if values and operands are atomic, those under combinator keys excepted. -/
structure Compatible (assignments : List Assignment) : Prop where
  segments : ∀ a ∈ assignments, ∀ segment ∈ a.path, isDollarKey segment = false
  separate : ∀ a ∈ assignments, ∀ b ∈ assignments, a.path ≠ [] → a.path <+: b.path →
    a.path = b.path
  outermost : ∀ a ∈ assignments, a.path = [] → a.usage = .combinator
  uniform : ∀ a ∈ assignments, ∀ b ∈ assignments, a.path = b.path → a.usage = b.usage
  keys : ∀ a ∈ assignments, ∀ key, a.key = some key → isDollarKey key = true
  atomic : ∀ a ∈ assignments, a.usage ≠ .combinator → a.value.isAtomic = true

theorem usage_eq_combinator_iff {a : Assignment} :
    a.usage = .combinator ↔ ∃ key, a.key = some key ∧ isCombinator key = true := by
  unfold usage
  cases a.key with
  | none => by_cases hc : a.comparator = .eq <;> simp [hc]
  | some key => cases hkey : isCombinator key <;> simp [hkey]

theorem slot_of_combinator {a : Assignment} {key : String} (hkey : a.key = some key)
    (hcombinator : isCombinator key = true) : a.slot = a.path ++ [key] := by
  rw [slot, hkey, Option.filter_some, if_pos hcombinator]
  rfl

theorem slot_of_ne_combinator {a : Assignment} (h : a.usage ≠ .combinator) : a.slot = a.path := by
  cases hkey : a.key with
  | none => simp [slot, hkey]
  | some key =>
    have hcombinator : ¬isCombinator key = true :=
      fun hcombinator => h (usage_eq_combinator_iff.mpr ⟨key, hkey, hcombinator⟩)
    simp [slot, hkey, Option.filter, hcombinator]

theorem isDollarKey_of_isCombinator {key : String} (h : isCombinator key = true) :
    isDollarKey key = true := by
  simp only [isCombinator, combinatorKeys, List.contains_iff_mem, List.mem_cons,
    List.not_mem_nil, or_false] at h
  rcases h with rfl | rfl | rfl <;> decide

namespace Compatible

variable {assignments : List Assignment} (h : Compatible assignments) {a b : Assignment}

include h

theorem isCombinator_segment (ha : a ∈ assignments) {segment : String} (hs : segment ∈ a.path) :
    isCombinator segment = false := by
  rw [← Bool.not_eq_true]
  intro hcombinator
  have hplain := h.segments a ha segment hs
  rw [isDollarKey_of_isCombinator hcombinator] at hplain
  exact Bool.noConfusion hplain

/-- The key of an assignment starts with a dollar sign, so it is a segment of none. -/
theorem not_mem_path (ha : a ∈ assignments) (hb : b ∈ assignments) {key : String}
    (hkey : a.key = some key) : key ∉ b.path := by
  intro hmem
  have hplain := h.segments b hb key hmem
  rw [h.keys a ha key hkey] at hplain
  exact Bool.noConfusion hplain

/-- What an assignment writes is of the class of its attribute. -/
theorem holds_payload (ha : a ∈ assignments) : a.usage.Holds a.payload := by
  have hatomic := h.atomic a ha
  cases hkey : a.key with
  | none =>
    by_cases hc : a.comparator = .eq
    · simp only [usage, payload, hkey, if_pos hc] at hatomic ⊢
      exact hatomic (by decide)
    · simp only [usage, payload, hkey, if_neg hc] at hatomic ⊢
      exact Value.isConstraint_defer hc (hatomic (by decide))
  | some key =>
    cases hcombinator : isCombinator key with
    | true =>
      simp only [usage, hkey, hcombinator, if_true]
      trivial
    | false =>
      simp only [usage, payload, hkey, hcombinator, if_false, Bool.false_eq_true] at hatomic ⊢
      exact Value.isConstraint_operator (h.keys a ha key hkey) hcombinator (hatomic (by decide))

/-- The last key of a slot tells what is written there; the keys before it are segments. -/
theorem exists_slot_eq (ha : a ∈ assignments) :
    ∃ parents last, a.slot = parents ++ [last] ∧ (∀ key ∈ parents, isCombinator key = false) ∧
      Coalescing last a.usage.Holds := by
  by_cases husage : a.usage = .combinator
  · obtain ⟨key, hkey, hcombinator⟩ := usage_eq_combinator_iff.mp husage
    refine ⟨a.path, key, slot_of_combinator hkey hcombinator,
      fun segment hs => h.isCombinator_segment ha hs, ?_⟩
    rw [husage]
    exact coalescing_of_combinator hcombinator
  · have hpath : a.path ≠ [] := fun hnil => husage (h.outermost a ha hnil)
    have hslot : a.slot = a.path.dropLast ++ [a.path.getLast hpath] := by
      rw [slot_of_ne_combinator husage, List.dropLast_concat_getLast]
    have hlast := h.isCombinator_segment ha (List.getLast_mem hpath)
    refine ⟨_, _, hslot, ?_, ?_⟩
    · intro segment hs
      exact h.isCombinator_segment ha (List.dropLast_subset a.path hs)
    · cases hu : a.usage with
      | plain => exact coalescing_atomic hlast
      | operator => exact coalescing_constraint hlast
      | combinator => exact absurd hu husage

/-- Two slots are the same and used in one way, or neither lies above the other. -/
theorem slot_eq_of_prefix (ha : a ∈ assignments) (hb : b ∈ assignments)
    (hslot : a.slot <+: b.slot) : a.slot = b.slot ∧ a.usage = b.usage := by
  by_cases hacomb : a.usage = .combinator
  · obtain ⟨key, hakey, hacombinator⟩ := usage_eq_combinator_iff.mp hacomb
    have haslot := slot_of_combinator hakey hacombinator
    have hnot := h.not_mem_path ha hb hakey
    by_cases hbcomb : b.usage = .combinator
    · obtain ⟨key', hbkey, hbcombinator⟩ := usage_eq_combinator_iff.mp hbcomb
      have hbslot := slot_of_combinator hbkey hbcombinator
      rw [hbslot, List.prefix_concat_iff] at hslot
      rcases hslot with heq | hbefore
      · exact ⟨heq.trans hbslot.symm, hacomb.trans hbcomb.symm⟩
      · exact absurd (hbefore.subset (haslot ▸ List.mem_concat_self)) hnot
    · rw [slot_of_ne_combinator hbcomb] at hslot
      exact absurd (hslot.subset (haslot ▸ List.mem_concat_self)) hnot
  · have haslot := slot_of_ne_combinator hacomb
    have hapath : a.path ≠ [] := fun hnil => hacomb (h.outermost a ha hnil)
    rw [haslot] at hslot ⊢
    by_cases hbcomb : b.usage = .combinator
    · obtain ⟨key, hbkey, hbcombinator⟩ := usage_eq_combinator_iff.mp hbcomb
      rw [slot_of_combinator hbkey hbcombinator, List.prefix_concat_iff] at hslot
      rcases hslot with heq | hbefore
      · exact absurd (heq ▸ List.mem_concat_self) (h.not_mem_path hb ha hbkey)
      · have hpath := h.separate a ha b hb hapath hbefore
        exact absurd ((h.uniform a ha b hb hpath).trans hbcomb) hacomb
    · rw [slot_of_ne_combinator hbcomb] at hslot ⊢
      have hpath := h.separate a ha b hb hapath hslot
      exact ⟨hpath, h.uniform a ha b hb hpath⟩

/-- An assignment keeps a condition fitting for the slots of all others. -/
theorem fits_apply (ha : a ∈ assignments) (hb : b ∈ assignments) {root : Condition}
    (hroot : Fits b.usage.Holds root b.slot) : Fits b.usage.Holds (a.apply root) b.slot := by
  obtain ⟨parents, last, hslot, -, hcoalescing⟩ := h.exists_slot_eq ha
  rw [apply_eq_assignValue, hslot]
  by_cases habove : b.slot <+: a.slot
  · obtain ⟨heq, husage⟩ := h.slot_eq_of_prefix hb ha habove
    rw [heq, husage, hslot] at hroot ⊢
    exact hroot.assignValue hcoalescing parents (h.holds_payload ha)
  · have hbelow : ¬a.slot <+: b.slot := by
      intro hbefore
      exact habove ((h.slot_eq_of_prefix ha hb hbefore).1 ▸ List.prefix_rfl)
    rw [hslot] at habove hbelow
    exact hroot.assignValue_of_incomparable parents b.slot habove hbelow a.payload

/-- An assignment to a merged condition may be made after the merge instead. -/
theorem merge_apply (ha : a ∈ assignments) {t u : Condition} (ht : Fits a.usage.Holds t a.slot)
    (hu : Fits a.usage.Holds u a.slot) : t.merge (a.apply u) = a.apply (t.merge u) := by
  obtain ⟨parents, last, hslot, hparents, hcoalescing⟩ := h.exists_slot_eq ha
  rw [apply_eq_assignValue, apply_eq_assignValue]
  rw [hslot] at ht hu ⊢
  exact merge_assignValue hcoalescing parents hparents ht hu (h.holds_payload ha)

theorem fits_foldl (ha : a ∈ assignments) {made : List Assignment} (hmade : made ⊆ assignments)
    {root : Condition} (hroot : Fits a.usage.Holds root a.slot) :
    Fits a.usage.Holds (made.foldl (fun root a => a.apply root) root) a.slot := by
  induction made generalizing root with
  | nil => exact hroot
  | cons first rest ih =>
    have hfirst := hmade List.mem_cons_self
    exact ih (List.subset_of_cons_subset hmade) (h.fits_apply hfirst ha hroot)

/-- All assignments to a merged condition may be made after the merge instead. -/
theorem merge_foldl {made : List Assignment} (hmade : made ⊆ assignments) {t u : Condition}
    (ht : ∀ a ∈ assignments, Fits a.usage.Holds t a.slot)
    (hu : ∀ a ∈ assignments, Fits a.usage.Holds u a.slot) :
    t.merge (made.foldl (fun root a => a.apply root) u) =
      made.foldl (fun root a => a.apply root) (t.merge u) := by
  induction made generalizing u with
  | nil => rfl
  | cons first rest ih =>
    have hfirst := hmade List.mem_cons_self
    have happlied : ∀ a ∈ assignments, Fits a.usage.Holds (first.apply u) a.slot :=
      fun a ha => h.fits_apply hfirst ha (hu a ha)
    rw [List.foldl_cons, ih (List.subset_of_cons_subset hmade) happlied,
      h.merge_apply hfirst (ht first hfirst) (hu first hfirst), List.foldl_cons]

theorem fits_empty (ha : a ∈ assignments) : Fits a.usage.Holds ∅ a.slot := by
  obtain ⟨parents, last, hslot, -, -⟩ := h.exists_slot_eq ha
  rw [hslot]
  cases parents with
  | nil => exact Condition.fits_empty last []
  | cons first rest => exact Condition.fits_empty first (rest ++ [last])

end Compatible

/-- Merging the condition built of `bs` into the one built of `as` gives the condition built of all
of them, for assignments that are compatible with each other. -/
theorem merge_build (as bs : List Assignment) (h : Compatible (as ++ bs)) :
    (build as).merge (build bs) = build (as ++ bs) := by
  have hempty : ∀ a ∈ as ++ bs, Fits a.usage.Holds ∅ a.slot := fun a ha => h.fits_empty ha
  have hbuilt : ∀ a ∈ as ++ bs, Fits a.usage.Holds (build as) a.slot :=
    fun a ha => h.fits_foldl ha (List.subset_append_left as bs) (hempty a ha)
  calc (build as).merge (build bs)
      = bs.foldl (fun root a => a.apply root) ((build as).merge ∅) :=
        h.merge_foldl (List.subset_append_right as bs) hbuilt hempty
    _ = bs.foldl (fun root a => a.apply root) (build as) := by rw [merge_empty]
    _ = build (as ++ bs) := List.foldl_append.symm

def lowerBounds : List Assignment :=
  [⟨["total"], none, .gte, .number 5⟩, ⟨["age"], some "$gt", .eq, .number 17⟩,
    ⟨["name", "first"], none, .eq, .string "Ann"⟩, ⟨[], some "$or", .eq, .object ∅⟩]

def upperBounds : List Assignment :=
  [⟨["total"], some "$lt", .eq, .number 10⟩, ⟨["age"], none, .lt, .number 66⟩,
    ⟨["name", "last"], none, .eq, .array [.string "Lee"]⟩, ⟨[], some "$or", .eq, .null⟩]

/-- On either attribute a comparison meets an operator, once from each side. -/
theorem merge_build_bounds :
    Compatible (lowerBounds ++ upperBounds) ∧
    (build lowerBounds).merge (build upperBounds) = build (lowerBounds ++ upperBounds) := by
  have hcompatible : Compatible (lowerBounds ++ upperBounds) := {
    segments := by decide
    separate := by decide
    outermost := by decide
    uniform := by decide
    keys := by
      simp [lowerBounds, upperBounds]
      decide
    atomic := by decide
  }
  exact ⟨hcompatible, merge_build lowerBounds upperBounds hcompatible⟩

end Assignment

end Abac
