import Abac.Proofs.Dict
import Abac.Value.Path

/-!
What a table shows. A path of object keys shows the value that it ends at, unless the value is an
object with fields, where the path goes on. A property of paths and values that holds of all that a
table shows is kept by every way in which a table grows: by an insertion at a path, whatever it
replaces on the way (`Fields.Shows.insertAt`), and by a merge (`Fields.Shows.merge`).
-/
namespace Abac

namespace Entries

variable {α : Type} {low : Option String}

/-- Entries written one after the other take precedence over what was there. -/
theorem get?_foldl_insert (dict : Dict α) (entries : Entries α low) (key : String) :
    (entries.toList.foldl (fun dict pair => Dict.insert dict pair.1 pair.2) dict).get? key =
      (entries.get? key).or (dict.get? key) := by
  induction entries generalizing dict with
  | nil => rfl
  | cons k above value rest ih =>
    rw [toList, List.foldl_cons, ih, get?, Dict.get?_insert]
    by_cases hkey : key = k
    · subst hkey
      rw [get?_eq_none_of_le (not_above_self key) rest, if_pos rfl, if_pos rfl]
      rfl
    · rw [if_neg hkey, if_neg hkey]

end Entries

theorem Dict.get?_extend {α : Type} (dict other : Dict α) (key : String) :
    (dict.extend other).get? key = (other.get? key).or (dict.get? key) :=
  Entries.get?_foldl_insert dict other key

def Value.isFilled : Value → Bool
  | .object fields => !fields.isEmpty
  | _ => false

/-- A value shows only what has a property if every path of keys that ends in it at something other
than a filled object ends at a value that has the property together with the path. -/
def Value.Shows (P : List String → Value → Prop) (value : Value) : Prop :=
  ∀ path inner, value.at? path = some inner → inner.isFilled = false → P path inner

namespace Fields

def Shows (P : List String → Value → Prop) (root : Fields) : Prop :=
  ∀ key value, root.get? key = some value → value.Shows fun path inner => P (key :: path) inner

variable {P : List String → Value → Prop} {root : Fields}

theorem Shows.at? (h : root.Shows P) {key : String} {path : List String} {inner : Value}
    (hat : root.at? (key :: path) = some inner) (hinner : inner.isFilled = false) :
    P (key :: path) inner := by
  obtain ⟨value, hget, hvalue⟩ := Option.bind_eq_some_iff.mp hat
  exact h key value hget path inner hvalue hinner

theorem shows_empty : Shows P ∅ := fun _ _ h => nomatch h

theorem Shows.insert (h : root.Shows P) {key : String} {value : Value}
    (hvalue : value.Shows fun path inner => P (key :: path) inner) :
    Shows P (root.insert key value) := by
  intro other slot hslot
  rw [Dict.get?_insert] at hslot
  by_cases hother : other = key
  · rw [if_pos hother, Option.some.injEq] at hslot
    rwa [hother, ← hslot]
  · rw [if_neg hother] at hslot
    exact h other slot hslot

theorem Shows.extend (h : root.Shows P) {other : Fields} (hother : other.Shows P) :
    Shows P (root.extend other) := by
  intro key value hget
  rw [Dict.get?_extend, Option.or_eq_some_iff] at hget
  rcases hget with hnew | ⟨-, hold⟩
  · exact hother key value hnew
  · exact h key value hold

/-- A filled object shows what its fields show, since no path ends at it. -/
theorem Shows.object (h : root.Shows P) (hfilled : root.isEmpty = false) :
    (Value.object root).Shows P := by
  intro path inner hat hinner
  cases path with
  | nil =>
    obtain rfl := Option.some.inj hat
    rw [Value.isFilled, hfilled] at hinner
    exact Bool.noConfusion hinner
  | cons key path => exact h.at? hat hinner

end Fields

theorem Value.Shows.fields {P : List String → Value → Prop} {value : Value} (h : value.Shows P) :
    Fields.Shows P value.fields := by
  cases value with
  | object fields =>
    intro key inner hget path last hat hlast
    exact h (key :: path) last (Option.bind_eq_some_iff.mpr ⟨inner, hget, hat⟩) hlast
  | _ => exact Fields.shows_empty

namespace Fields

variable {P : List String → Value → Prop} {root : Fields}

theorem Shows.under (h : root.Shows P) (key : String) :
    (root.under key).Shows fun path inner => P (key :: path) inner := by
  unfold Fields.under
  cases hget : root.get? key with
  | none => exact shows_empty
  | some value => exact (h key value hget).fields

theorem insertAt_singleton (root : Fields) (key : String) (value : Value) :
    root.insertAt [key] value = root.insert key value :=
  rfl

/-- A longer path inserts into the object under its first key. -/
theorem insertAt_cons_cons (root : Fields) (key next : String) (path : List String)
    (value : Value) :
    root.insertAt (key :: next :: path) value =
      root.insert key (.object ((root.under key).insertAt (next :: path) value)) := by
  have hlast : (next :: path).getLast? = some ((next :: path).getLast (List.cons_ne_nil _ _)) :=
    List.getLast?_eq_some_getLast _
  unfold insertAt
  rw [List.getLast?_cons_cons, hlast]
  rfl

theorem insertAt_isEmpty (root : Fields) (key : String) (path : List String) (value : Value) :
    (root.insertAt (key :: path) value).isEmpty = false := by
  refine (Entries.isEmpty_eq_false_iff _).mpr ⟨key, ?_⟩
  cases path with
  | nil => exact ⟨value, by rw [insertAt_singleton, Dict.get?_insert_self]⟩
  | cons next path => exact ⟨_, by rw [insertAt_cons_cons, Dict.get?_insert_self]⟩

/-- An insertion adds what the value shows below its path. Whatever stood in the way is gone. -/
theorem Shows.insertAt (h : root.Shows P) {path : List String} {value : Value}
    (hvalue : value.Shows fun below inner => P (path ++ below) inner) :
    Shows P (root.insertAt path value) := by
  induction path generalizing root P with
  | nil =>
    cases value with
    | object fields => exact h.extend hvalue.fields
    | _ => exact h
  | cons key path ih =>
    cases path with
    | nil => exact h.insert hvalue
    | cons next path =>
      rw [insertAt_cons_cons]
      exact h.insert ((ih (h.under key) hvalue).object (insertAt_isEmpty _ next path value))

/-- Merging changes every key on its own. -/
theorem get?_merge (root : Fields) {low : Option String} (entries : Entries Value low)
    (key : String) :
    (root.merge entries).get? key =
      match entries.get? key with
      | some value => some (mergeSlot (root.get? key) value)
      | none => root.get? key := by
  induction entries generalizing root with
  | nil => rfl
  | cons k above value rest ih =>
    rw [merge, ih, Entries.get?, Dict.get?_insert]
    by_cases hkey : key = k
    · subst hkey
      rw [Entries.get?_eq_none_of_le (not_above_self key) rest, if_pos rfl, if_pos rfl]
    · rw [if_neg hkey, if_neg hkey]

theorem merge_empty_left (root : Fields) : merge ∅ root = root := by
  apply Dict.ext
  intro key
  rw [get?_merge, Dict.get?_empty]
  cases root.get? key with
  | none => rfl
  | some value => cases value <;> rfl

theorem merge_isEmpty (root : Fields) {low : Option String} {entries : Entries Value low}
    (h : entries.isEmpty = false) : (root.merge entries).isEmpty = false := by
  obtain ⟨key, value, hget⟩ := (Entries.isEmpty_eq_false_iff entries).mp h
  refine (Entries.isEmpty_eq_false_iff _).mpr ⟨key, mergeSlot (root.get? key) value, ?_⟩
  rw [get?_merge, hget]

mutual

theorem shows_mergeSlot {P : List String → Value → Prop} (old : Option Value) (value : Value)
    (hold : ∀ slot, old = some slot → slot.Shows P) (hvalue : value.Shows P) :
    (mergeSlot old value).Shows P := by
  match value with
  | .object .nil =>
    cases old with
    | none => exact hvalue
    | some slot =>
      cases slot with
      | object existing => exact hold _ rfl
      | _ => exact hvalue
  | .object (.cons key above first rest) =>
    have hincoming : Shows P (.cons key above first rest) := hvalue.fields
    cases old with
    | none => exact hvalue
    | some slot =>
      cases slot with
      | object existing =>
        have hexisting : Shows P existing := (hold _ rfl).fields
        exact (shows_merge existing (.cons key above first rest) hexisting hincoming).object
          (merge_isEmpty existing rfl)
      | _ => exact hvalue
  | .null | .bool _ | .number _ | .string _ | .regex _ | .array _ => exact hvalue

theorem shows_merge {P : List String → Value → Prop} (root : Fields) {low : Option String}
    (entries : Entries Value low) (hroot : root.Shows P)
    (hentries : ∀ key value, entries.get? key = some value →
      value.Shows fun path inner => P (key :: path) inner) :
    Shows P (root.merge entries) := by
  match entries with
  | .nil => exact hroot
  | .cons key above value rest =>
    have hvalue := hentries key value (by rw [Entries.get?, if_pos rfl])
    rw [merge]
    apply shows_merge _ rest
    · exact hroot.insert (shows_mergeSlot _ value (hroot key) hvalue)
    · intro other slot hslot
      exact hentries other slot (Entries.get?_cons_of_get?_rest hslot)

end

/-- A merge shows only what one of its two sides shows. -/
theorem Shows.merge (h : root.Shows P) {other : Fields} (hother : other.Shows P) :
    Shows P (root.merge other) :=
  shows_merge root other h hother

end Fields

end Abac
