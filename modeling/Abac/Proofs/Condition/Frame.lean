import Abac.Proofs.Condition.Survival
import Mathlib.Data.List.Basic

/-!
What writes and merges leave alone. A path neither above nor below the slot of an assignment reads
afterwards as before, also where the way that both have in common led through something that had to
give way to an object (`Assignment.at?_apply_of_apart`), and so it does after any number of such
assignments. A merge treats every key of the outermost object for itself: it has the keys of both
sides, and a key of one side has the value it has there, in a list of its own if it is a combinator
key of the condition that is merged in (`Condition.writes_and_merges_local`).
-/
namespace Abac

namespace Assignment

def Apart (a : Assignment) (path : List String) : Prop := ¬a.slot <+: path ∧ ¬path <+: a.slot

end Assignment

namespace Condition

variable {t u : Condition} {key : String}

/-- A plain write is not seen at a path neither above nor below its attribute. -/
theorem at?_assignValue_of_apart {place path : List String} (hbelow : ¬place <+: path)
    (habove : ¬path <+: place) (t : Condition) (value : Value) :
    (t.assignValue place value).at? path = t.at? path := by
  have hplace : place ≠ [] := by
    rintro rfl
    exact hbelow List.nil_prefix
  obtain ⟨parents, last, rfl⟩ := (List.eq_nil_or_concat' place).resolve_left hplace
  exact at?_assignValue_of_incomparable parents last hbelow habove t value

/-- What a merge has under a key depends on what the two sides have there. -/
theorem get?_merge_congr {t' u' : Condition} (ht : t.get? key = t'.get? key)
    (hu : u.get? key = u'.get? key) : (t.merge u).get? key = (t'.merge u').get? key := by
  rw [get?_merge, get?_merge, ht, hu]

/-- A key that only the condition merged in has keeps its value. Under a combinator key the value
becomes a list if it is none. -/
theorem get?_merge_of_left_none {value : Value} (ht : t.get? key = none)
    (hu : u.get? key = some value) :
    (t.merge u).get? key =
      some (if isCombinator key && !value.isArray then .array [value] else value) := by
  rw [get?_merge_of_some hu, ht]
  cases hkey : isCombinator key with
  | false => rw [written_none hkey, Bool.false_and, if_neg Bool.false_ne_true]
  | true =>
    rw [written_of_combinator hkey, Bool.true_and]
    cases value <;> rfl

end Condition

namespace Assignment

variable {path : List String}

/-- An assignment is not seen at a path apart from it. -/
theorem at?_apply_of_apart {a : Assignment} (h : a.Apart path) (t : Condition) :
    (a.apply t).at? path = t.at? path := by
  rw [apply_eq_assignValue]
  exact Condition.at?_assignValue_of_apart h.1 h.2 t a.payload

/-- Nor are any number of assignments that are all apart from the path. -/
theorem at?_foldl_apply_of_apart {assignments : List Assignment}
    (h : ∀ a ∈ assignments, a.Apart path) (t : Condition) :
    (assignments.foldl (fun t a => a.apply t) t).at? path = t.at? path := by
  induction assignments generalizing t with
  | nil => rfl
  | cons a rest ih =>
    rw [List.forall_mem_cons] at h
    rw [List.foldl_cons, ih h.2, at?_apply_of_apart h.1]

end Assignment

namespace Condition

/-- What assignments, plain writes and merges leave alone. Wherever a path is neither above nor
below what is assigned, it reads as before. What a merge has under a key depends on what its two
sides have there; it has the keys of both, and a key of one side keeps its value. Only a value under
a combinator key of the condition merged in becomes a list of one element, unless it is a list. -/
theorem writes_and_merges_local (t : Condition) :
    (∀ (a : Assignment) (path : List String), ¬a.slot <+: path → ¬path <+: a.slot →
      (t.assign a.path a.key a.comparator a.value).at? path = t.at? path) ∧
    (∀ (place path : List String) (value : Value), ¬place <+: path → ¬path <+: place →
      (t.assignValue place value).at? path = t.at? path) ∧
    ∀ (u : Condition) (key : String),
      (∀ t' u' : Condition, t.get? key = t'.get? key → u.get? key = u'.get? key →
        (t.merge u).get? key = (t'.merge u').get? key) ∧
      (t.merge u).contains key = (t.contains key || u.contains key) ∧
      (u.get? key = none → (t.merge u).get? key = t.get? key) ∧
      ∀ value, t.get? key = none → u.get? key = some value →
        (t.merge u).get? key =
          some (if isCombinator key && !value.isArray then .array [value] else value) := by
  refine ⟨fun a path hbelow habove => ?_, fun place path value hbelow habove => ?_,
    fun u key => ⟨fun t' u' ht hu => ?_, ?_, fun hu => ?_, fun value ht hu => ?_⟩⟩
  · exact Assignment.at?_apply_of_apart ⟨hbelow, habove⟩ t
  · exact at?_assignValue_of_apart hbelow habove t value
  · exact get?_merge_congr ht hu
  · rw [merge, contains_mergeEntries, Bool.or_comm]
  · exact get?_merge_of_none hu
  · exact get?_merge_of_left_none ht hu

def parcel : Condition :=
  Assignment.build [⟨["parcel", "size"], none, .gte, .string "b"⟩,
    ⟨["parcel", "weight"], none, .eq, .string "light"⟩]

def widths : Assignment where
  path := ["parcel", "size", "width"]
  key := some "$or"
  value := .array [.string "m", .string "l"]

/-- The bound gives way to the list, and neither the weight nor the height, which is not there, is
touched. A single alternative that is merged in becomes a list. -/
theorem writes_and_merges_local_parcel :
    ¬widths.slot <+: ["parcel", "weight"] ∧ ¬["parcel", "weight"] <+: widths.slot ∧
    (parcel.assign widths.path widths.key widths.comparator widths.value).at? ["parcel", "weight"] =
      some (.string "light") ∧
    (parcel.assign widths.path widths.key widths.comparator widths.value).at?
      ["parcel", "size", "height"] = none ∧
    (parcel.merge (Dict.insert ∅ "$or" (.bool true))).get? "$or" = some (.array [.bool true]) := by
  obtain ⟨hassign, -, hmerge⟩ := writes_and_merges_local parcel
  have hbelow : ¬widths.slot <+: ["parcel", "weight"] := by decide
  have habove : ¬["parcel", "weight"] <+: widths.slot := by decide
  refine ⟨hbelow, habove, hassign widths ["parcel", "weight"] hbelow habove, ?_, ?_⟩
  · exact hassign widths ["parcel", "size", "height"] (by decide) (by decide)
  · exact (hmerge (Dict.insert ∅ "$or" (.bool true)) "$or").2.2.2 (.bool true) rfl rfl

end Condition

end Abac
