import Abac.Proofs.Condition.Fitting

/-!
What a write leaves at the end of a path. At its own path a write leaves what it makes of the value
there (`Condition.at?_assignValue_self`), and a path neither above nor below keeps its value. A
write at a longer path goes into the object at the end of the shorter one, and a value that fits the
longer path reaches its end when it is written above it
(`Condition.exists_at?_assignValue_above`).
-/
namespace Abac

namespace Condition

/-- At its own path a write leaves what it makes of the value there. -/
theorem at?_assignValue_self (root : Condition) (parents : List String) (last : String)
    (value : Value) :
    (root.assignValue (parents ++ [last]) value).at? (parents ++ [last]) =
      some (written last (root.at? (parents ++ [last])) value) := by
  rw [assignValue_eq_alterAt, Fields.at?_alterAt_self]

/-- A path keeps its value under a write at a path neither above nor below it. -/
theorem at?_assignValue_of_incomparable (parents : List String) (last : String)
    {path : List String} (hbelow : ¬parents ++ [last] <+: path)
    (habove : ¬path <+: parents ++ [last]) (root : Condition) (value : Value) :
    (root.assignValue (parents ++ [last]) value).at? path = root.at? path := by
  rw [assignValue_eq_alterAt, Fields.at?_alterAt_of_incomparable hbelow habove]

/-- A write below the end of a path goes into the object there, and into an empty one where something
else stands. -/
theorem at?_assignValue_below {root : Condition} {path : List String} {slot : Value}
    (h : root.at? path = some slot) (parents : List String) (last : String) (value : Value) :
    (root.assignValue (path ++ (parents ++ [last])) value).at? path =
      some (.object (assignValue slot.fields (parents ++ [last]) value)) := by
  induction path generalizing root with
  | nil =>
    obtain rfl : Value.object root = slot := Option.some.inj h
    rfl
  | cons key path ih =>
    rw [List.cons_append, ← List.append_assoc, assignValue_cons, List.append_assoc]
    refine Fields.at?_cons_eq_some_iff.mpr ⟨_, Dict.get?_insert_self _ _ _, ?_⟩
    cases path with
    | nil =>
      obtain ⟨inner, hget, hinner⟩ := Fields.at?_cons_eq_some_iff.mp h
      obtain rfl : inner = slot := Option.some.inj hinner
      rw [Fields.under, hget]
      rfl
    | cons next rest =>
      exact ih (by rwa [Fields.at?_under root key (List.cons_ne_nil next rest)])

variable {P Q : Value → Prop}

/-- Objects coalesce key by key, so a value that fits a path is written at its end, if it has
anything there. -/
theorem exists_at?_coalesce
    (hQ : ∀ slot value, Q slot → P value → Q (coalesce slot value)) {path : List String}
    (hpath : ∀ segment ∈ path, isCombinator segment = false) {slot inner value : Value}
    (hslot : slot.at? path = some inner) (hinner : Q inner) (hvalue : value.Fits P path) :
    ∃ after, (coalesce slot value).at? path = some after ∧ Q after := by
  induction path generalizing slot value with
  | nil =>
    obtain rfl := Option.some.inj hslot
    exact ⟨_, rfl, hQ slot value hinner hvalue⟩
  | cons key path ih =>
    obtain ⟨incoming, rfl, hincoming⟩ := hvalue
    cases slot with
    | object existing =>
      obtain ⟨old, hold, hat⟩ := Fields.at?_cons_eq_some_iff.mp hslot
      have hkey := hpath key List.mem_cons_self
      have hrest : ∀ segment ∈ path, isCombinator segment = false :=
        fun segment hs => hpath segment (List.mem_cons_of_mem key hs)
      have hmerged := get?_mergeEntries existing incoming key
      rw [coalesce_object_object]
      cases hget : incoming.get? key with
      | none =>
        rw [hget, hold] at hmerged
        exact ⟨inner, Fields.at?_cons_eq_some_iff.mpr ⟨old, hmerged, hat⟩, hinner⟩
      | some new =>
        rw [hget, hold] at hmerged
        obtain ⟨after, hafter, hcarried⟩ := ih hrest hat (hincoming new hget)
        refine ⟨after, Fields.at?_cons_eq_some_iff.mpr ⟨_, hmerged, ?_⟩, hcarried⟩
        rwa [written_some hkey]
    | _ => exact nomatch hslot

/-- A write at a beginning of a path, of a value that fits the rest of it, does to the end of the
path what a write there would do. -/
theorem exists_at?_assignValue_above
    (hQ : ∀ slot value, Q slot → P value → Q (coalesce slot value)) (path : List String)
    {rest : List String}
    (hpath : ∀ segment ∈ path.getLast?.toList ++ rest, isCombinator segment = false)
    (hne : path ++ rest ≠ []) {root : Condition} {inner value : Value}
    (hroot : root.at? (path ++ rest) = some inner) (hinner : Q inner)
    (hvalue : value.Fits P rest) :
    ∃ after, (root.assignValue path value).at? (path ++ rest) = some after ∧ Q after := by
  have hrest : ∀ segment ∈ rest, isCombinator segment = false :=
    fun segment hs => hpath segment (List.mem_append_right _ hs)
  rcases List.eq_nil_or_concat path with rfl | ⟨parents, last, hconcat⟩
  · obtain ⟨key, more, rfl⟩ := List.exists_cons_of_ne_nil hne
    obtain ⟨incoming, rfl, -⟩ := id hvalue
    have hafter := exists_at?_coalesce hQ hrest hroot hinner hvalue
    rwa [coalesce_object_object] at hafter
  · rw [List.concat_eq_append] at hconcat
    subst hconcat
    have hlast := hpath last (List.mem_append_left rest (by simp))
    rw [Fields.at?_append, Option.bind_eq_some_iff] at hroot
    obtain ⟨slot, hslot, hat⟩ := hroot
    obtain ⟨after, hafter, hcarried⟩ := exists_at?_coalesce hQ hrest hat hinner hvalue
    refine ⟨after, ?_, hcarried⟩
    rw [Fields.at?_append, at?_assignValue_self, hslot, written_some hlast]
    exact hafter

end Condition

end Abac
