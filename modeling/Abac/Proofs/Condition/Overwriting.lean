import Abac.Proofs.Condition.Survival

/-!
Equalities that are assigned one after the other. An equality has the last word: at its attribute
its value is read back as it was assigned, whatever stood there or on the way before, unless it is
an object, which joins what it meets. Conditions keep a comparison in the form of an array of its
symbol and its operand, and cannot tell it from an array of that form that an equality states. Where
such an array meets operators, it is taken for one of them (`Condition.at?_assign_equality`).
-/
namespace Abac.Condition

/-- A value that is no object replaces what a slot holds, unless both are taken for operators. -/
theorem coalesce_of_not_isObject (slot : Value) {value : Value} (hvalue : value.isObject = false) :
    coalesce slot value =
      if slot.isOperatorForm = true ∧ value.isOperatorForm = true then
        .object (mergeEntries slot.operators value.operators)
      else value := by
  cases hdeferred : value.deferred? with
  | none =>
    have hatomic : value.isAtomic = true := by simp [Value.isAtomic, hvalue, hdeferred]
    have hform : ¬value.isOperatorForm = true := by
      intro hform
      rcases Value.isOperatorForm_iff.mp hform with ⟨c, operand, hc, rfl⟩ | ⟨fields, rfl, -, -⟩
      · rw [Value.deferred?_defer hc] at hdeferred
        cases hdeferred
      · cases hvalue
    rw [coalesce_of_isAtomic slot hatomic, if_neg fun h => hform h.2]
  | some deferred =>
    obtain ⟨hc, rfl⟩ := Value.deferred?_eq_some_iff.mp hdeferred
    have hform := Value.isOperatorForm_defer hc deferred.2
    rw [coalesce_defer slot hc, Value.operators_defer hc]
    simp only [hform, and_true]

variable {root : Condition} {path : List String} {value : Value}

/-- What an equality leaves at its attribute is what it makes of the value there. -/
theorem at?_assign_eq_written {parents : List String} {last : String}
    (hpath : path = parents ++ [last]) :
    (root.assign path none .eq value).at? path = some (written last (root.at? path) value) := by
  subst hpath
  exact at?_assignValue_self root parents last value

/-- The value of an equality is read back at its attribute just when it is not taken for an operator
that meets others there. Otherwise the attribute holds the operators of both. -/
theorem at?_assign_equality (root : Condition) (path : List String) (value : Value)
    (hpath : path ≠ []) (hplain : ∀ segment ∈ path, isCombinator segment = false)
    (hvalue : value.isObject = false) :
    ((root.assign path none .eq value).at? path = some value ↔
      ¬(value.isOperatorForm = true ∧
        ∃ slot, root.at? path = some slot ∧ slot.isOperatorForm = true)) ∧
    ∀ slot, root.at? path = some slot → slot.isOperatorForm = true → value.isOperatorForm = true →
      (root.assign path none .eq value).at? path =
        some (.object (mergeEntries slot.operators value.operators)) := by
  obtain ⟨parents, last, hconcat⟩ := (List.eq_nil_or_concat path).resolve_left hpath
  rw [List.concat_eq_append] at hconcat
  have hlast := hplain last (hconcat ▸ List.mem_concat_self)
  rw [at?_assign_eq_written hconcat]
  cases hat : root.at? path with
  | none => simp [written_none hlast]
  | some slot =>
    rw [written_some hlast, coalesce_of_not_isObject slot hvalue]
    by_cases hmeet : slot.isOperatorForm = true ∧ value.isOperatorForm = true
    · have hne : Value.object (mergeEntries slot.operators value.operators) ≠ value := by
        intro heq
        rw [← heq] at hvalue
        cases hvalue
      simp [hmeet, hne]
    · rw [if_neg hmeet]
      refine ⟨iff_of_true rfl ?_, ?_⟩
      · rintro ⟨hform, other, hother, hslot⟩
        exact hmeet ⟨Option.some.inj hother ▸ hslot, hform⟩
      · intro other hother hslot hform
        exact absurd ⟨Option.some.inj hother ▸ hslot, hform⟩ hmeet

def labelled : Condition :=
  Assignment.build [⟨["post", "labels"], some "$in", .eq, .array [.string "draft"]⟩]

/-- An array that states no comparison replaces the operators. -/
theorem at?_assign_equality_labels :
    ["post", "labels"] ≠ [] ∧ (∀ segment ∈ ["post", "labels"], isCombinator segment = false) ∧
    (Value.array [.string "draft", .string "final"]).isObject = false ∧
    (labelled.assign ["post", "labels"] none .eq
      (.array [.string "draft", .string "final"])).at? ["post", "labels"] =
        some (.array [.string "draft", .string "final"]) := by
  have hpath : ["post", "labels"] ≠ [] := List.cons_ne_nil _ _
  have hplain : ∀ segment ∈ ["post", "labels"], isCombinator segment = false := by decide
  have hform : (Value.array [.string "draft", .string "final"]).isOperatorForm = false := by decide
  have hread := (at?_assign_equality labelled ["post", "labels"]
    (.array [.string "draft", .string "final"]) hpath hplain rfl).1
  refine ⟨hpath, hplain, rfl, hread.mpr ?_⟩
  rintro ⟨hcomparison, -⟩
  rw [hform] at hcomparison
  cases hcomparison

/-- Two equalities with arrays that read like comparisons: the second does not replace the first. -/
theorem equality_not_overwriting :
    ["labels"] ≠ [] ∧ (∀ segment ∈ ["labels"], isCombinator segment = false) ∧
    (Value.array [.string ">", .string "final"]).isObject = false ∧
    ((Condition.assign ∅ ["labels"] none .eq (.array [.string "<", .string "draft"])).assign
      ["labels"] none .eq (.array [.string ">", .string "final"])).at? ["labels"] ≠
        some (.array [.string ">", .string "final"]) := by
  have hplain : ∀ segment ∈ ["labels"], isCombinator segment = false := by decide
  refine ⟨List.cons_ne_nil _ _, hplain, rfl, ?_⟩
  have hjoined : ((Condition.assign ∅ ["labels"] none .eq
      (.array [.string "<", .string "draft"])).assign ["labels"] none .eq
        (.array [.string ">", .string "final"])).at? ["labels"] =
      some (.object (Dict.insert (Dict.insert ∅ "$lt" (.string "draft")) "$gt"
        (.string "final"))) := rfl
  rw [hjoined]
  exact nofun

end Abac.Condition
