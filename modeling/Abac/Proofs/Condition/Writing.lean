import Abac.Condition
import Abac.Proofs.Value.Path

/-!
Writing into conditions. Every write ends at one key of one object, and what the key holds
afterwards depends on the key, on what it held and on the value alone (`Condition.written`). So a
write at a path descends and then changes one key, a merge changes every key of the merged
condition on its own (`Condition.get?_merge`), and an assignment of a rule is a plain write of its
payload at its slot (`Assignment.apply_eq_assignValue`).
-/
namespace Abac

namespace Value

/-- The elements that a value adds to a list of alternatives: those of an array, or itself. -/
def elements : Value → List Value
  | .array items => items
  | other => [other]

/-- The form in which a slot holds a comparison that is no equality. -/
def defer (c : Comparator) (operand : Value) : Value := .array [.string c.symbol, operand]

def operators (value : Value) : Fields := value.unfoldDeferred.fields

end Value

namespace Condition

/-- What a key holds after a value was written under it. -/
def written (key : String) (old : Option Value) (value : Value) : Value :=
  if isCombinator key then .array (old.elim [] Value.elements ++ value.elements)
  else match old with
    | some slot => coalesce slot value
    | none => value

theorem written_of_combinator {key : String} (hkey : isCombinator key = true) (old : Option Value)
    (value : Value) :
    written key old value = .array (old.elim [] Value.elements ++ value.elements) :=
  if_pos hkey

theorem written_none {key : String} (hkey : isCombinator key = false) (value : Value) :
    written key none value = value := by
  rw [written, hkey, if_neg Bool.false_ne_true]

theorem written_some {key : String} (hkey : isCombinator key = false) (slot value : Value) :
    written key (some slot) value = coalesce slot value := by
  rw [written, hkey, if_neg Bool.false_ne_true]

theorem append_eq (node : Fields) (key : String) (value : Value) :
    append node key value =
      node.insert key (.array ((node.get? key).elim [] Value.elements ++ value.elements)) := by
  unfold append
  cases node.get? key with
  | none => cases value <;> rfl
  | some slot => cases slot <;> cases value <;> rfl

theorem setKey_eq (node : Fields) (key : String) (value : Value) :
    setKey node key value = node.insert key (written key (node.get? key) value) := by
  unfold setKey written
  split
  · exact append_eq node key value
  · rfl

theorem get?_setKey_self (node : Fields) (key : String) (value : Value) :
    (setKey node key value).get? key = some (written key (node.get? key) value) := by
  rw [setKey_eq, Dict.get?_insert_self]

theorem get?_setKey_of_ne (node : Fields) {key other : String} (h : other ≠ key) (value : Value) :
    (setKey node key value).get? other = node.get? other := by
  rw [setKey_eq, Dict.get?_insert_of_ne node _ h]

theorem mergeEntries_cons (node : Fields) {low : Option String} (key : String)
    (above : Above low key) (value : Value) (rest : Entries Value (some key)) :
    mergeEntries node (.cons key above value rest) = mergeEntries (setKey node key value) rest :=
  rfl

theorem mergeEntries_singleton (node : Fields) (key : String) (value : Value) :
    mergeEntries node (Dict.insert ∅ key value) = setKey node key value :=
  rfl

/-- Merging writes every entry under its key, and no key twice. -/
theorem get?_mergeEntries (node : Fields) {low : Option String} (entries : Entries Value low)
    (key : String) :
    (mergeEntries node entries).get? key =
      match entries.get? key with
      | some value => some (written key (node.get? key) value)
      | none => node.get? key := by
  induction entries generalizing node with
  | nil => rfl
  | cons k above value rest ih =>
    rw [mergeEntries_cons, ih, Entries.get?]
    by_cases hkey : key = k
    · subst hkey
      rw [Entries.get?_eq_none_of_le (not_above_self key) rest, get?_setKey_self, if_pos rfl]
    · rw [get?_setKey_of_ne node hkey, if_neg hkey]

theorem get?_merge (t u : Condition) (key : String) :
    (t.merge u).get? key =
      match u.get? key with
      | some value => some (written key (t.get? key) value)
      | none => t.get? key :=
  get?_mergeEntries t u key

theorem get?_merge_of_some {t u : Condition} {key : String} {value : Value}
    (h : u.get? key = some value) :
    (t.merge u).get? key = some (written key (t.get? key) value) := by
  rw [get?_merge, h]

theorem get?_merge_of_none {t u : Condition} {key : String} (h : u.get? key = none) :
    (t.merge u).get? key = t.get? key := by
  rw [get?_merge, h]

/-- An insertion into a merged condition is an insertion after the merge, of what the merge writes
under the key. -/
theorem merge_insert (t u : Condition) (key : String) (value : Value) :
    t.merge (u.insert key value) = (t.merge u).insert key (written key (t.get? key) value) := by
  apply Dict.ext
  intro other
  by_cases hkey : other = key
  · rw [hkey, get?_merge_of_some (Dict.get?_insert_self _ _ _), Dict.get?_insert_self]
  · rw [get?_merge, Dict.get?_insert_of_ne _ _ hkey, Dict.get?_insert_of_ne _ _ hkey, get?_merge]

theorem merge_empty (t : Condition) : t.merge ∅ = t := rfl

def Collects (root : Condition) : Prop :=
  ∀ key slot, isCombinator key = true → root.get? key = some slot → slot.isArray = true

/-- Merged into an empty condition, a condition stays as it is just when it collects. Any other value
under a combinator key becomes a list of one element. -/
theorem merge_empty_left_iff {root : Condition} : merge ∅ root = root ↔ Collects root := by
  constructor
  · intro h key slot hkey hget
    have hmerged := get?_merge_of_some (t := ∅) hget
    rw [h, hget, written_of_combinator hkey] at hmerged
    rw [Option.some.inj hmerged]
    rfl
  · intro h
    apply Dict.ext
    intro key
    cases hget : root.get? key with
    | none => rw [get?_merge_of_none hget, Dict.get?_empty]
    | some slot =>
      rw [get?_merge_of_some hget, Dict.get?_empty]
      cases hkey : isCombinator key with
      | false => rw [written_none hkey]
      | true =>
        have hlist := h key slot hkey hget
        cases slot with
        | array items =>
          rw [written_of_combinator hkey]
          rfl
        | _ => cases hlist

/-- A path of one key writes there. -/
theorem assignValue_singleton (root : Condition) (key : String) (value : Value) :
    root.assignValue [key] value = setKey root key value :=
  rfl

theorem assignValue_concat (root : Condition) (parents : List String) (key : String)
    (value : Value) :
    root.assignValue (parents ++ [key]) value =
      root.modifyAt (fun node => setKey node key value) parents := by
  unfold assignValue
  rw [List.getLast?_concat, List.dropLast_concat]

/-- A write changes what the last key of its path holds. -/
theorem assignValue_eq_alterAt (root : Condition) (parents : List String) (last : String)
    (value : Value) :
    root.assignValue (parents ++ [last]) value =
      root.alterAt parents last fun old => written last old value := by
  rw [assignValue_concat, Fields.alterAt]
  simp only [setKey_eq, Fields.alter]

/-- A longer path writes into the object under its first key. -/
theorem assignValue_cons (root : Condition) (key : String) (parents : List String) (last : String)
    (value : Value) :
    root.assignValue (key :: (parents ++ [last])) value =
      root.insert key (.object (assignValue (root.under key) (parents ++ [last]) value)) := by
  have hpath : key :: (parents ++ [last]) = (key :: parents) ++ [last] := rfl
  rw [hpath, assignValue_concat, assignValue_concat, Fields.modifyAt]

theorem assignValue_cons_of_ne_nil (root : Condition) (key : String) {path : List String}
    (hpath : path ≠ []) (value : Value) :
    root.assignValue (key :: path) value =
      root.insert key (.object (assignValue (root.under key) path value)) := by
  obtain ⟨parents, last, hconcat⟩ := (List.eq_nil_or_concat path).resolve_left hpath
  rw [hconcat, List.concat_eq_append, assignValue_cons]

/-- A write touches no key but the first of its path. -/
theorem get?_assignValue_of_ne (root : Condition) {key first : String} (hne : key ≠ first)
    (path : List String) (value : Value) :
    (root.assignValue (first :: path) value).get? key = root.get? key := by
  by_cases hpath : path = []
  · rw [hpath, assignValue_singleton, get?_setKey_of_ne root hne]
  · rw [assignValue_cons_of_ne_nil root first hpath, Dict.get?_insert_of_ne root _ hne]

end Condition

structure Assignment where
  path : List String
  key : Option String := none
  comparator : Comparator := .eq
  value : Value

namespace Assignment

def apply (a : Assignment) (root : Condition) : Condition :=
  root.assign a.path a.key a.comparator a.value

/-- The path that the assignment writes at. A combinator key is part of it, an operator key is
part of the payload. -/
def slot (a : Assignment) : List String := a.path ++ (a.key.filter isCombinator).toList

def payload (a : Assignment) : Value :=
  match a.key with
  | some key => if isCombinator key then a.value else .object (Dict.insert ∅ key a.value)
  | none => if a.comparator = .eq then a.value else .defer a.comparator a.value

theorem apply_eq_assignValue (a : Assignment) (root : Condition) :
    a.apply root = root.assignValue a.slot a.payload := by
  unfold apply slot payload Condition.assign
  cases a.key with
  | none => simp [Value.defer]
  | some key =>
    by_cases hkey : isCombinator key = true
    · simp only [hkey, if_true, Option.filter_some, Option.toList_some]
      rw [Condition.assignValue_concat]
      simp only [Condition.setKey, hkey, if_true]
    · simp [hkey, Option.filter]

def build (assignments : List Assignment) : Condition :=
  assignments.foldl (fun root a => a.apply root) ∅

end Assignment

end Abac
