import Abac.Proofs.Condition.Survival

/-!
Operators that meet on one attribute. An assignment that adds an operator to an attribute leaves an
object of operators there, with all that the attribute held under other keys; a deferred comparison
counts as held under the key of its operator (`Assignment.operators_kept`). The exception is a list
of alternatives that is added to a deferred comparison: the way to the list goes through an object
made in place of the comparison, which is lost (`Assignment.comparison_lost`).
-/
namespace Abac.Assignment

open Condition

def operatorKey (a : Assignment) : String := a.key.getD a.comparator.operator.key

def AddsOperator (a : Assignment) : Prop :=
  match a.key with
  | none => a.comparator ≠ .eq
  | some key => isDollarKey key = true

variable {a : Assignment} {root : Condition} {slot : Value}

theorem AddsOperator.isDollarKey_operatorKey (h : a.AddsOperator) :
    isDollarKey a.operatorKey = true := by
  unfold AddsOperator at h
  unfold operatorKey
  cases hkey : a.key with
  | none => exact a.comparator.operator.isDollarKey_key
  | some key =>
    rw [hkey] at h
    exact h

/-- What an assignment writes for an operator, other than a list of alternatives, is in operator form
and states that operator alone. -/
theorem AddsOperator.payload (h : a.AddsOperator) (hkey : isCombinator a.operatorKey = false) :
    a.slot = a.path ∧ a.payload.isOperatorForm = true ∧
      a.payload.operators = Dict.insert ∅ a.operatorKey a.value := by
  have hdollar := h.isDollarKey_operatorKey
  unfold AddsOperator at h
  unfold operatorKey at hkey hdollar ⊢
  unfold slot Assignment.payload
  cases hsome : a.key with
  | none =>
    rw [hsome] at h
    refine ⟨List.append_nil _, ?_⟩
    rw [if_neg h]
    exact ⟨Value.isOperatorForm_defer h a.value, Value.operators_defer h a.value⟩
  | some key =>
    rw [hsome, Option.getD_some] at hkey hdollar
    have hform := Value.isOperatorForm_operator hdollar a.value
    simp [hkey, Option.filter, hform]

/-- A list of alternatives is written below the attribute. -/
theorem slot_of_isCombinator (hkey : isCombinator a.operatorKey = true) :
    a.slot = a.path ++ [a.operatorKey] ∧ a.payload = a.value := by
  unfold operatorKey at hkey ⊢
  unfold slot payload
  cases hsome : a.key with
  | none =>
    rw [hsome, Option.getD_none, Operator.isCombinator_key] at hkey
    cases hkey
  | some key =>
    rw [hsome, Option.getD_some] at hkey
    simp [hkey, Option.filter]

/-- An operator is written among those that the attribute has. -/
theorem at?_apply (h : a.AddsOperator) {parents : List String} {last : String}
    (hpath : a.path = parents ++ [last]) (hlast : isCombinator last = false)
    (hat : root.at? a.path = some slot) (hform : slot.isOperatorForm = true)
    (hmeet : isCombinator a.operatorKey = true → slot.isObject = true) :
    (a.apply root).at? a.path = some (.object (setKey slot.operators a.operatorKey a.value)) := by
  rw [apply_eq_assignValue]
  cases hkey : isCombinator a.operatorKey with
  | false =>
    obtain ⟨hslot, hpayload, hoperators⟩ := h.payload hkey
    rw [hslot, hpath, at?_assignValue_self, ← hpath, hat, written_some hlast,
      coalesce_of_isOperatorForm hform hpayload, hoperators, mergeEntries_singleton]
  | true =>
    obtain ⟨hslot, hpayload⟩ := slot_of_isCombinator hkey
    cases slot with
    | object fields =>
      rw [hslot, hpayload]
      exact at?_assignValue_below hat [] a.operatorKey a.value
    | _ => exact nomatch hmeet hkey

/-- Where an attribute holds operators, an assignment that adds one leaves an object of operators
there. All others stay, and the one that is added is written over what its key held. If a list of
alternatives is added, the attribute has to hold an object. -/
theorem operators_kept (a : Assignment) (root : Condition) (slot : Value) (hadds : a.AddsOperator)
    (hpath : a.path ≠ []) (hplain : ∀ segment ∈ a.path, isCombinator segment = false)
    (hat : root.at? a.path = some slot) (hform : slot.isOperatorForm = true)
    (hmeet : isCombinator a.operatorKey = true → slot.isObject = true) :
    ∃ fields : Fields, (a.apply root).at? a.path = some (.object fields) ∧
      (Value.object fields).isOperatorForm = true ∧
      (∀ key, key ≠ a.operatorKey → fields.get? key = slot.operators.get? key) ∧
      fields.get? a.operatorKey =
        some (written a.operatorKey (slot.operators.get? a.operatorKey) a.value) := by
  obtain ⟨parents, last, hconcat⟩ := (List.eq_nil_or_concat a.path).resolve_left hpath
  rw [List.concat_eq_append] at hconcat
  have hlast := hplain last (hconcat ▸ List.mem_concat_self)
  refine ⟨_, at?_apply hadds hconcat hlast hat hform hmeet, ?_,
    fun key hkey => get?_setKey_of_ne _ hkey _, get?_setKey_self _ _ _⟩
  obtain ⟨-, hold⟩ := Value.isOperatorForm_object_iff.mp
    (Value.isOperatorForm_object_operators hform)
  rw [setKey_eq]
  refine Value.isOperatorForm_object_iff.mpr ⟨⟨a.operatorKey, by simp [Dict.contains_insert]⟩, ?_⟩
  intro key hkey
  rw [Dict.contains_insert, Bool.or_eq_true, beq_iff_eq] at hkey
  rcases hkey with rfl | hkey
  · exact hadds.isDollarKey_operatorKey
  · exact hold key hkey

def lowestWidth : Assignment where
  path := ["size", "width"]
  comparator := .gte
  value := .string "b"

def widthLimit : Assignment where
  path := ["size", "width"]
  key := some "$lt"
  value := .string "m"

/-- Both bounds stand when the second is assigned. -/
theorem operators_kept_widthLimit :
    ∃ fields : Fields,
      (widthLimit.apply (build [lowestWidth])).at? ["size", "width"] = some (.object fields) ∧
      fields.get? "$gte" = some (.string "b") ∧ fields.get? "$lt" = some (.string "m") := by
  have hat : (build [lowestWidth]).at? ["size", "width"] = some (.defer .gte (.string "b")) := rfl
  have hplain : ∀ segment ∈ widthLimit.path, isCombinator segment = false := by decide
  have hkey : ¬isCombinator widthLimit.operatorKey = true := by decide
  obtain ⟨fields, hafter, -, hothers, hnew⟩ := operators_kept widthLimit (build [lowestWidth])
    (.defer .gte (.string "b")) rfl (List.cons_ne_nil _ _) hplain hat rfl (absurd · hkey)
  exact ⟨fields, hafter, hothers "$gte" (by decide), hnew⟩

/-- A list of alternatives that is added to a deferred comparison takes its place. -/
theorem at?_apply_of_isCombinator {c : Comparator} {operand : Value}
    (hkey : isCombinator a.operatorKey = true) (hat : root.at? a.path = some (.defer c operand)) :
    (a.apply root).at? a.path =
      some (.object (Dict.insert ∅ a.operatorKey (.array a.value.elements))) := by
  obtain ⟨hslot, hpayload⟩ := slot_of_isCombinator hkey
  rw [apply_eq_assignValue, hslot, hpayload, ← List.nil_append [a.operatorKey],
    at?_assignValue_below hat [] a.operatorKey a.value, List.nil_append, assignValue_singleton,
    setKey_eq, written_of_combinator hkey]
  rfl

def widthChoices : Assignment where
  path := ["size", "width"]
  key := some "$or"
  value := .string "s"

/-- The lower bound is gone when alternatives are assigned to the attribute. -/
theorem comparison_lost :
    widthChoices.AddsOperator ∧ widthChoices.path = ["size", "width"] ∧
    (∀ segment ∈ widthChoices.path, isCombinator segment = false) ∧
    (build [lowestWidth]).at? widthChoices.path = some (.defer .gte (.string "b")) ∧
    (Value.defer .gte (.string "b")).isOperatorForm = true ∧
    "$gte" ≠ widthChoices.operatorKey ∧
    (Value.defer .gte (.string "b")).operators.get? "$gte" = some (.string "b") ∧
    ¬∃ fields : Fields,
      (widthChoices.apply (build [lowestWidth])).at? widthChoices.path = some (.object fields) ∧
      fields.get? "$gte" = some (.string "b") := by
  have hat : (build [lowestWidth]).at? widthChoices.path = some (.defer .gte (.string "b")) := rfl
  refine ⟨rfl, rfl, by decide, hat, rfl, by decide, rfl, ?_⟩
  rintro ⟨fields, hafter, hheld⟩
  have hkey : isCombinator widthChoices.operatorKey = true := by decide
  rw [at?_apply_of_isCombinator hkey hat] at hafter
  obtain rfl := Value.object.inj (Option.some.inj hafter)
  rw [Dict.get?_insert_of_ne _ _ (by decide), Dict.get?_empty] at hheld
  cases hheld

end Abac.Assignment
