import Abac.Proofs.Condition.Independence
import Abac.Proofs.Condition.Coalescing

/-!
Merging a condition with itself. Two writes of one value differ from a single one in the deferred
comparisons alone: these meet themselves and become operators, as do those in their operands. So a
condition without combinator keys, merged with itself, is the same condition with all comparisons
that objects and operands lead to in operator form, and a second merge finds no comparison to change
(`Condition.merge_self_eq_normalize`).
-/
namespace Abac

namespace Value

mutual

def hasCombinator : Value → Bool
  | .array items => itemsHaveCombinator items
  | .object fields => fieldsHaveCombinator fields
  | _ => false

def itemsHaveCombinator : List Value → Bool
  | [] => false
  | item :: rest => item.hasCombinator || itemsHaveCombinator rest

def fieldsHaveCombinator : {low : Option String} → Entries Value low → Bool
  | _, .nil => false
  | _, .cons key _ value rest =>
    isCombinator key || value.hasCombinator || fieldsHaveCombinator rest

end

mutual

/-- A value with its deferred comparisons as operators, all that fields of objects and operands of
such comparisons lead to. -/
def normalize : Value → Value
  | .array [.string symbol, operand] =>
    match Comparator.ofSymbol? symbol with
    | some c =>
      if c = .eq then .array [.string symbol, operand]
      else .object (Dict.insert ∅ c.operator.key operand.normalize)
    | none => .array [.string symbol, operand]
  | .object fields => .object (normalizeFields fields)
  | value => value

def normalizeFields : {low : Option String} → Entries Value low → Entries Value low
  | _, .nil => .nil
  | _, .cons key above value rest => .cons key above value.normalize (normalizeFields rest)

end

section

variable {motive : Value → Prop} (atomic : ∀ value, value.isAtomic = true → motive value)
  (defer : ∀ c operand, c ≠ .eq → motive operand → motive (.defer c operand))
  (object : ∀ fields : Fields, (∀ key inner, fields.get? key = some inner → motive inner) →
    motive (.object fields))

include atomic defer object

set_option linter.unusedSectionVars false in
mutual

/-- What holds of values that replace others, of comparisons if it holds of their operands, and of
objects if it holds of what is in their fields, holds of every value. -/
@[elab_as_elim]
theorem inductionOnForms (value : Value) : motive value := by
  match value with
  | .null | .bool _ | .number _ | .string _ | .regex _ => exact atomic _ rfl
  | .array items =>
    cases hdeferred : (Value.array items).deferred? with
    | none => exact atomic _ (by rw [isAtomic, hdeferred]; rfl)
    | some deferred =>
      obtain ⟨hc, hitems⟩ := deferred?_eq_some_iff.mp hdeferred
      have hmem : deferred.2 ∈ items := by simp [Value.array.inj hitems]
      rw [hitems]
      exact defer deferred.1 deferred.2 hc (inductionOnItems items deferred.2 hmem)
  | .object fields => exact object fields (inductionOnFields fields)

theorem inductionOnItems (items : List Value) : ∀ item ∈ items, motive item := by
  match items with
  | [] => exact fun _ hmem => absurd hmem List.not_mem_nil
  | first :: rest =>
    exact List.forall_mem_cons.mpr ⟨inductionOnForms first, inductionOnItems rest⟩

theorem inductionOnFields {low : Option String} (fields : Entries Value low) :
    ∀ key inner, fields.get? key = some inner → motive inner := by
  match fields with
  | .nil => exact fun _ _ hget => nomatch hget
  | .cons k above first rest =>
    intro key inner hget
    rw [Entries.get?] at hget
    split at hget
    · exact Option.some.inj hget ▸ inductionOnForms first
    · exact inductionOnFields rest key inner hget

end

end

theorem normalize_of_isAtomic {value : Value} (h : value.isAtomic = true) :
    value.normalize = value := by
  unfold normalize
  split
  · next symbol operand =>
    cases hsymbol : Comparator.ofSymbol? symbol with
    | none => rfl
    | some c => exact if_pos (eq_of_isAtomic h hsymbol)
  · simp [isAtomic, isObject] at h
  · rfl

theorem normalize_defer {c : Comparator} (hc : c ≠ .eq) (operand : Value) :
    (defer c operand).normalize = .object (Dict.insert ∅ c.operator.key operand.normalize) := by
  rw [defer, normalize]
  simp only [Comparator.ofSymbol?_symbol]
  rw [if_neg hc]

theorem get?_normalizeFields {low : Option String} (fields : Entries Value low) (key : String) :
    (normalizeFields fields).get? key = (fields.get? key).map normalize := by
  induction fields with
  | nil => rfl
  | cons k above first rest ih =>
    rw [normalizeFields, Entries.get?, Entries.get?, ih]
    split <;> rfl

/-- All comparisons that are to become operators are operators in a normalized value. -/
theorem normalize_normalize (value : Value) : value.normalize.normalize = value.normalize := by
  induction value using inductionOnForms with
  | atomic value hatomic => rw [normalize_of_isAtomic hatomic, normalize_of_isAtomic hatomic]
  | defer c operand hc ih =>
    have hfields : normalizeFields (Dict.insert ∅ c.operator.key operand.normalize) =
        Dict.insert ∅ c.operator.key operand.normalize.normalize := rfl
    rw [normalize_defer hc, normalize, hfields, ih]
  | object fields ih =>
    rw [normalize, normalize]
    congr 1
    apply Dict.ext
    intro key
    rw [get?_normalizeFields, get?_normalizeFields]
    cases hget : fields.get? key with
    | none => rfl
    | some inner => exact congrArg some (ih key inner hget)

theorem hasCombinator_defer (c : Comparator) (operand : Value) :
    (defer c operand).hasCombinator = operand.hasCombinator := by
  simp [defer, hasCombinator, itemsHaveCombinator]

theorem fieldsHaveCombinator_eq_false_iff {low : Option String} {fields : Entries Value low} :
    fieldsHaveCombinator fields = false ↔ ∀ key inner, fields.get? key = some inner →
      isCombinator key = false ∧ inner.hasCombinator = false := by
  induction fields with
  | nil => simp [fieldsHaveCombinator, Entries.get?]
  | cons k above first rest ih =>
    rw [fieldsHaveCombinator, Bool.or_eq_false_iff, Bool.or_eq_false_iff, ih]
    constructor
    · rintro ⟨hfirst, hrest⟩ key inner hget
      by_cases hkey : key = k
      · rw [Entries.get?, if_pos hkey] at hget
        exact hkey ▸ Option.some.inj hget ▸ hfirst
      · rw [Entries.get?, if_neg hkey] at hget
        exact hrest key inner hget
    · intro h
      exact ⟨h k first (if_pos rfl),
        fun key inner hget => h key inner (Entries.get?_cons_of_get?_rest hget)⟩

/-- Operator keys are no combinator keys. -/
theorem hasCombinator_normalize {value : Value} (h : value.hasCombinator = false) :
    value.normalize.hasCombinator = false := by
  induction value using inductionOnForms with
  | atomic value hatomic => rwa [normalize_of_isAtomic hatomic]
  | defer c operand hc ih =>
    rw [hasCombinator_defer] at h
    rw [normalize_defer hc]
    change (isCombinator c.operator.key || operand.normalize.hasCombinator || false) = false
    rw [Operator.isCombinator_key, ih h]
    rfl
  | object fields ih =>
    refine fieldsHaveCombinator_eq_false_iff.mpr fun key inner hget => ?_
    rw [get?_normalizeFields, Option.map_eq_some_iff] at hget
    obtain ⟨before, hbefore, rfl⟩ := hget
    obtain ⟨hkey, hinner⟩ := fieldsHaveCombinator_eq_false_iff.mp h key before hbefore
    exact ⟨hkey, ih key before hbefore hinner⟩

end Value

namespace Condition

/-- A value that is written over itself. -/
theorem coalesce_self {value : Value} (h : value.hasCombinator = false) :
    coalesce value value = value.normalize := by
  induction value using Value.inductionOnForms with
  | atomic value hatomic =>
    rw [coalesce_of_isAtomic value hatomic, Value.normalize_of_isAtomic hatomic]
  | defer c operand hc ih =>
    have hform := Value.isOperatorForm_defer hc operand
    rw [Value.hasCombinator_defer] at h
    rw [coalesce_of_isOperatorForm hform hform, Value.operators_defer hc, mergeEntries_singleton,
      setKey_eq, Dict.get?_insert_self, written_some c.operator.isCombinator_key, ih h,
      Dict.insert_insert, Value.normalize_defer hc]
  | object fields ih =>
    rw [coalesce_object_object, Value.normalize]
    congr 1
    apply Dict.ext
    intro key
    rw [get?_mergeEntries, Value.get?_normalizeFields]
    cases hget : fields.get? key with
    | none => rfl
    | some inner =>
      obtain ⟨hkey, hinner⟩ := Value.fieldsHaveCombinator_eq_false_iff.mp h key inner hget
      simp only [written_some hkey, ih key inner hget hinner, Option.map_some]

theorem merge_self {root : Condition} (h : Value.fieldsHaveCombinator root = false) :
    root.merge root = Value.normalizeFields root := by
  have hobject : (Value.object root).hasCombinator = false := h
  have hself := coalesce_self hobject
  rw [coalesce_object_object, Value.normalize] at hself
  exact Value.object.inj hself

/-- Merged with itself, a condition without combinator keys has its deferred comparisons as
operators, all that objects and the operands of comparisons lead to, and is otherwise unchanged.
Merged with itself once more it stays as it is. -/
theorem merge_self_eq_normalize (root : Condition)
    (h : Value.fieldsHaveCombinator root = false) :
    root.merge root = Value.normalizeFields root ∧
      (root.merge root).merge (root.merge root) = root.merge root := by
  have hobject : (Value.object root).hasCombinator = false := h
  have hnormalized : Value.fieldsHaveCombinator (Value.normalizeFields root) = false :=
    Value.hasCombinator_normalize hobject
  have htwice := Value.normalize_normalize (.object root)
  rw [Value.normalize, Value.normalize] at htwice
  rw [merge_self h, merge_self hnormalized]
  exact ⟨rfl, Value.object.inj htwice⟩

def nestedBounds : Condition :=
  (Condition.assign ∅ ["size", "width"] none .gte (.defer .lt (.string "m"))).assign ["labels"]
    none .eq (.defer .eq (.defer .gt (.string "draft")))

/-- Both comparisons of the width become operators. The one in the labels is behind an equality and
stays as it is. -/
theorem merge_self_eq_normalize_nestedBounds :
    Value.fieldsHaveCombinator nestedBounds = false ∧
    (nestedBounds.merge nestedBounds).at? ["size", "width"] =
      some (.object (Dict.insert ∅ "$gte" (.object (Dict.insert ∅ "$lt" (.string "m"))))) ∧
    (nestedBounds.merge nestedBounds).at? ["labels"] = nestedBounds.at? ["labels"] := by
  have hplain : Value.fieldsHaveCombinator nestedBounds = false := rfl
  obtain ⟨hmerged, -⟩ := merge_self_eq_normalize nestedBounds hplain
  refine ⟨hplain, ?_⟩
  rw [hmerged]
  exact ⟨rfl, rfl⟩

end Condition

end Abac
