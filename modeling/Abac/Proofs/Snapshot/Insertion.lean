import Abac.Proofs.Snapshot.Showing
import Abac.Proofs.Value.Path
import Mathlib.Data.List.Basic

/-!
Insertions into tables. An insertion puts its value at the end of its path, whatever was there or on
the way before. So the value is read back, a second insertion at the path replaces the first, and
at a path neither above nor below nothing changes. Insertions at such paths may be made in either
order. At the empty path the fields of an object take the place of those with the same keys
(`Fields.insertAt_laws`).
-/
namespace Abac.Fields

variable {first second path : List String}

theorem insertAt_concat (root : Fields) (parents : List String) (last : String) (value : Value) :
    root.insertAt (parents ++ [last]) value = root.alterAt parents last fun _ => value := by
  unfold insertAt
  rw [List.getLast?_concat, List.dropLast_concat]
  rfl

theorem at?_insertAt_self (root : Fields) (hpath : path ≠ []) (value : Value) :
    (root.insertAt path value).at? path = some value := by
  obtain ⟨parents, last, rfl⟩ := (List.eq_nil_or_concat' path).resolve_left hpath
  rw [insertAt_concat, at?_alterAt_self]

/-- Of two values inserted at one path the second stays. -/
theorem insertAt_insertAt (root : Fields) (hpath : path ≠ []) (old new : Value) :
    (root.insertAt path old).insertAt path new = root.insertAt path new := by
  obtain ⟨parents, last, rfl⟩ := (List.eq_nil_or_concat' path).resolve_left hpath
  rw [insertAt_concat, insertAt_concat, insertAt_concat, alterAt_alterAt]

/-- An insertion is not seen at a path neither above nor below its own. -/
theorem at?_insertAt_of_incomparable (hbelow : ¬first <+: second) (habove : ¬second <+: first)
    (root : Fields) (value : Value) : (root.insertAt first value).at? second = root.at? second := by
  have hfirst : first ≠ [] := fun hnil => hbelow (hnil ▸ List.nil_prefix)
  obtain ⟨parents, last, rfl⟩ := (List.eq_nil_or_concat' first).resolve_left hfirst
  rw [insertAt_concat, at?_alterAt_of_incomparable hbelow habove]

/-- Insertions at paths neither of which lies above the other may be made in either order. -/
theorem insertAt_comm (hbelow : ¬first <+: second) (habove : ¬second <+: first) (root : Fields)
    (x y : Value) :
    (root.insertAt first x).insertAt second y = (root.insertAt second y).insertAt first x := by
  have hfirst : first ≠ [] := fun hnil => hbelow (hnil ▸ List.nil_prefix)
  have hsecond : second ≠ [] := fun hnil => habove (hnil ▸ List.nil_prefix)
  obtain ⟨parents, a, rfl⟩ := (List.eq_nil_or_concat' first).resolve_left hfirst
  obtain ⟨others, b, rfl⟩ := (List.eq_nil_or_concat' second).resolve_left hsecond
  simp only [insertAt_concat]
  exact alterAt_comm hbelow habove root _ _

/-- At the empty path the fields of an object replace those with the same keys. -/
theorem get?_insertAt_nil (root fields : Fields) (key : String) :
    (root.insertAt [] (.object fields)).get? key = (fields.get? key).or (root.get? key) :=
  Dict.get?_extend root fields key

theorem insertAt_nil_of_not_isObject (root : Fields) {value : Value}
    (hvalue : value.isObject = false) : root.insertAt [] value = root := by
  cases value with
  | object fields => cases hvalue
  | _ => rfl

/-- An insertion at a path is read back there, changes nothing at a path neither above nor below, is
not changed by a repetition, and may change places with one at such a path, whatever stands on the
way to both. At the empty path, the fields of an object replace exactly those with the same keys,
and any other value changes nothing. -/
theorem insertAt_laws (root : Fields) :
    (∀ (path : List String) (value : Value), path ≠ [] →
      (root.insertAt path value).at? path = some value ∧
      (∀ other, ¬path <+: other → ¬other <+: path →
        (root.insertAt path value).at? other = root.at? other) ∧
      (root.insertAt path value).insertAt path value = root.insertAt path value) ∧
    (∀ (fields : Fields) (key : String),
      (root.insertAt [] (.object fields)).get? key = (fields.get? key).or (root.get? key)) ∧
    (∀ value : Value, value.isObject = false → root.insertAt [] value = root) ∧
    ∀ (first second : List String) (x y : Value), ¬first <+: second → ¬second <+: first →
      (root.insertAt first x).insertAt second y = (root.insertAt second y).insertAt first x := by
  refine ⟨fun path value hpath => ⟨?_, fun other hbelow habove => ?_, ?_⟩, fun fields key => ?_,
    fun value hvalue => ?_, fun first second x y hbelow habove => ?_⟩
  · exact at?_insertAt_self root hpath value
  · exact at?_insertAt_of_incomparable hbelow habove root value
  · exact insertAt_insertAt root hpath value value
  · exact get?_insertAt_nil root fields key
  · exact insertAt_nil_of_not_isObject root hvalue
  · exact insertAt_comm hbelow habove root x y

def nicknamed : Fields := Dict.insert ∅ "name" (.string "Bo")

/-- The text gives way to an object, and either order makes the same one. -/
theorem insertAt_laws_nicknamed :
    ((nicknamed.insertAt ["name", "first"] (.string "Robert")).insertAt ["name", "last"]
      (.string "Doe")) =
      (nicknamed.insertAt ["name", "last"] (.string "Doe")).insertAt ["name", "first"]
        (.string "Robert") ∧
    (nicknamed.insertAt ["name", "first"] (.string "Robert")).at? ["name", "first"] =
      some (.string "Robert") ∧
    (nicknamed.insertAt ["name", "first"] (.string "Robert")).at? ["name", "last"] = none ∧
    nicknamed.insertAt [] (.string "Bo") = nicknamed := by
  obtain ⟨hpath, -, hplain, hcomm⟩ := insertAt_laws nicknamed
  obtain ⟨hself, hother, -⟩ := hpath ["name", "first"] (.string "Robert") (List.cons_ne_nil _ _)
  refine ⟨?_, hself, ?_, hplain (.string "Bo") rfl⟩
  · exact hcomm ["name", "first"] ["name", "last"] _ _ (by decide) (by decide)
  · exact hother ["name", "last"] (by decide) (by decide)

end Abac.Fields
