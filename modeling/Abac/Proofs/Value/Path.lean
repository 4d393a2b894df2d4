import Abac.Proofs.Dict
import Abac.Value.Path

/-!
Changes inside objects. Whatever is written at the end of a path changes what one key of one object
holds, and what it leaves there depends on what the key held (`Fields.alterAt`). So a change is read
back at its own path, and at a path neither above nor below it everything is as before, also where
the change puts objects in the way that both paths have in common
(`Fields.at?_alterAt_of_incomparable`). Two changes at such paths may be made in either order
(`Fields.alterAt_comm`).
-/
namespace Abac

/-- A path leads on from where its beginning leads. -/
theorem Value.at?_append (value : Value) (path rest : List String) :
    value.at? (path ++ rest) = (value.at? path).bind fun inner => inner.at? rest := by
  induction path generalizing value with
  | nil => rfl
  | cons key path ih =>
    rw [List.cons_append]
    cases value with
    | object fields => simp only [Value.at?, ih, Option.bind_assoc]
    | _ => rfl

namespace Fields

theorem at?_append (root : Fields) (path rest : List String) :
    root.at? (path ++ rest) = (root.at? path).bind fun inner => inner.at? rest :=
  Value.at?_append (.object root) path rest

theorem at?_cons (root : Fields) (key : String) (path : List String) :
    root.at? (key :: path) = (root.get? key).bind fun inner => inner.at? path :=
  rfl

theorem at?_cons_eq_some_iff {root : Fields} {key : String} {path : List String} {value : Value} :
    root.at? (key :: path) = some value ↔
      ∃ inner, root.get? key = some inner ∧ inner.at? path = some value :=
  Option.bind_eq_some_iff

/-- The object under a key has at the end of a path what is there behind the key. -/
theorem at?_under (root : Fields) (key : String) {path : List String} (hpath : path ≠ []) :
    at? (root.under key) path = root.at? (key :: path) := by
  obtain ⟨next, rest, rfl⟩ := List.exists_cons_of_ne_nil hpath
  change at? (root.under key) (next :: rest) =
    (root.get? key).bind fun inner => inner.at? (next :: rest)
  rw [Fields.under]
  cases root.get? key with
  | none => rfl
  | some inner => cases inner <;> rfl

theorem under_insert_self (root : Fields) (key : String) (fields : Fields) :
    Fields.under (root.insert key (.object fields)) key = fields := by
  rw [Fields.under, Dict.get?_insert_self]
  rfl

/-- What is read behind a key depends on what the key holds. -/
theorem at?_insert_of_ne (root : Fields) {key first : String} (hne : first ≠ key)
    (path : List String) (value : Value) :
    at? (root.insert key value) (first :: path) = root.at? (first :: path) := by
  rw [at?_cons, at?_cons, Dict.get?_insert_of_ne root value hne]

theorem at?_insert_object (root : Fields) (key : String) {path : List String} (hpath : path ≠ [])
    (fields : Fields) : at? (root.insert key (.object fields)) (key :: path) = fields.at? path := by
  rw [← at?_under _ key hpath, under_insert_self]

theorem modifyAt_modifyAt (root : Fields) (first second : Fields → Fields) (path : List String) :
    modifyAt (root.modifyAt first path) second path =
      root.modifyAt (fun node => second (first node)) path := by
  induction path generalizing root with
  | nil => rfl
  | cons key path ih =>
    rw [modifyAt, modifyAt, modifyAt, under_insert_self, Dict.insert_insert, ih]

def alter (root : Fields) (key : String) (change : Option Value → Value) : Fields :=
  root.insert key (change (root.get? key))

theorem alter_comm (root : Fields) {a b : String} (hne : a ≠ b)
    (first second : Option Value → Value) :
    (root.alter a first).alter b second = (root.alter b second).alter a first := by
  unfold alter
  rw [Dict.get?_insert_of_ne root _ hne.symm, Dict.get?_insert_of_ne root _ hne,
    Dict.insert_comm root hne]

theorem alter_alter (root : Fields) (key : String) (first second : Option Value → Value) :
    (root.alter key first).alter key second =
      root.alter key fun old => second (some (first old)) := by
  unfold alter
  rw [Dict.get?_insert_self, Dict.insert_insert]

/-- A change behind a key alters what the key holds. -/
theorem modifyAt_cons (root : Fields) (change : Fields → Fields) (key : String)
    (path : List String) :
    root.modifyAt change (key :: path) =
      root.alter key fun old => .object (modifyAt (old.elim ∅ Value.fields) change path) := by
  rw [modifyAt, alter, Fields.under]
  cases root.get? key <;> rfl

/-- Puts at the end of a path, under its last key, what `change` makes of what is there. -/
def alterAt (root : Fields) (parents : List String) (last : String)
    (change : Option Value → Value) : Fields :=
  root.modifyAt (fun node => node.alter last change) parents

theorem alterAt_cons (root : Fields) (key : String) (parents : List String) (last : String)
    (change : Option Value → Value) :
    root.alterAt (key :: parents) last change =
      root.insert key (.object (alterAt (root.under key) parents last change)) :=
  rfl

theorem alterAt_alterAt (root : Fields) (parents : List String) (last : String)
    (first second : Option Value → Value) :
    (root.alterAt parents last first).alterAt parents last second =
      root.alterAt parents last fun old => second (some (first old)) := by
  unfold alterAt
  rw [modifyAt_modifyAt]
  simp only [alter_alter]

/-- A change is read back at its path. -/
theorem at?_alterAt_self (root : Fields) (parents : List String) (last : String)
    (change : Option Value → Value) :
    (root.alterAt parents last change).at? (parents ++ [last]) =
      some (change (root.at? (parents ++ [last]))) := by
  induction parents generalizing root with
  | nil =>
    have hread (root : Fields) : root.at? [last] = root.get? last := Option.bind_fun_some _
    rw [List.nil_append, hread, hread]
    exact Dict.get?_insert_self _ _ _
  | cons key parents ih =>
    have hpath : parents ++ [last] ≠ [] := List.concat_ne_nil last parents
    rw [List.cons_append, alterAt_cons, at?_insert_object root key hpath, ih,
      at?_under root key hpath]

/-- A change is not seen at a path neither above nor below its own. -/
theorem at?_alterAt_of_incomparable {parents : List String} {last : String} {path : List String}
    (hbelow : ¬parents ++ [last] <+: path) (habove : ¬path <+: parents ++ [last]) (root : Fields)
    (change : Option Value → Value) :
    (root.alterAt parents last change).at? path = root.at? path := by
  induction parents generalizing root path with
  | nil =>
    cases path with
    | nil => exact absurd List.nil_prefix habove
    | cons key path =>
      have hne : key ≠ last := by
        rintro rfl
        exact hbelow (List.cons_prefix_cons.mpr ⟨rfl, List.nil_prefix⟩)
      exact at?_insert_of_ne root hne path _
  | cons first parents ih =>
    cases path with
    | nil => exact absurd List.nil_prefix habove
    | cons key path =>
      rw [alterAt_cons]
      by_cases hkey : key = first
      · subst hkey
        rw [List.cons_append, List.cons_prefix_cons, eq_self, true_and] at hbelow habove
        have hpath : path ≠ [] := by
          rintro rfl
          exact habove List.nil_prefix
        rw [at?_insert_object root key hpath, ih hbelow habove, at?_under root key hpath]
      · exact at?_insert_of_ne root hkey path _

/-- Changes at paths neither of which lies above the other may be made in either order. -/
theorem alterAt_comm {parents others : List String} {a b : String}
    (hbelow : ¬parents ++ [a] <+: others ++ [b]) (habove : ¬others ++ [b] <+: parents ++ [a])
    (root : Fields) (first second : Option Value → Value) :
    (root.alterAt parents a first).alterAt others b second =
      (root.alterAt others b second).alterAt parents a first := by
  induction parents generalizing others root with
  | nil =>
    -- One change is at a key of the outermost object and the other one behind another key.
    cases others with
    | nil =>
      have hne : a ≠ b := fun hkey => hbelow (hkey ▸ List.prefix_rfl)
      exact alter_comm root hne first second
    | cons key others =>
      have hne : a ≠ key := fun hkey =>
        hbelow (List.cons_prefix_cons.mpr ⟨hkey, List.nil_prefix⟩)
      unfold alterAt
      rw [modifyAt_cons, modifyAt_cons]
      exact alter_comm root hne first _
  | cons key parents ih =>
    cases others with
    | nil =>
      have hne : key ≠ b := fun hkey =>
        habove (List.cons_prefix_cons.mpr ⟨hkey.symm, List.nil_prefix⟩)
      unfold alterAt
      rw [modifyAt_cons, modifyAt_cons]
      exact alter_comm root hne _ second
    | cons other others =>
      by_cases hkey : key = other
      · subst hkey
        simp only [List.cons_append, List.cons_prefix_cons, eq_self, true_and] at hbelow habove
        simp only [alterAt_cons, under_insert_self, Dict.insert_insert, ih hbelow habove]
      · unfold alterAt
        simp only [modifyAt_cons]
        exact alter_comm root hkey _ _

end Fields

end Abac
