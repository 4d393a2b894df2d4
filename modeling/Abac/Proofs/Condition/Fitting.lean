import Abac.Proofs.Condition.Coalescing

/-!
Conditions that fit a slot: the way to the slot leads through objects only, and what the slot holds
is of the slot's class. Writes at the slot itself and at slots neither above nor below it keep a
condition fitting. If two conditions fit a slot, then writing there into the second and merging it
into the first is the same as merging them and writing there afterwards
(`Condition.merge_assignValue`).
-/
namespace Abac

/-- A value fits a path for a class if the path leads from it through objects only and reaches, if
anything, a value of the class. -/
def Value.Fits (P : Value → Prop) : Value → List String → Prop
  | value, [] => P value
  | value, key :: path =>
    ∃ fields : Fields, value = .object fields ∧
      ∀ inner, fields.get? key = some inner → Value.Fits P inner path

theorem Value.Fits.and_at? {P R : Value → Prop} {value : Value} {path : List String}
    (h : value.Fits P path) (hR : ∀ inner, value.at? path = some inner → R inner) :
    value.Fits (fun inner => P inner ∧ R inner) path := by
  induction path generalizing value with
  | nil => exact ⟨h, hR value rfl⟩
  | cons key path ih =>
    obtain ⟨fields, rfl, hinner⟩ := h
    refine ⟨fields, rfl, fun inner hget => ih (hinner inner hget) fun last hlast => hR last ?_⟩
    exact Fields.at?_cons_eq_some_iff.mpr ⟨inner, hget, hlast⟩

namespace Condition

def Fits (P : Value → Prop) (root : Condition) (slot : List String) : Prop :=
  (Value.object root).Fits P slot

variable {P : Value → Prop}

theorem fits_cons_iff {root : Condition} {key : String} {path : List String} :
    Fits P root (key :: path) ↔ ∀ inner, root.get? key = some inner → inner.Fits P path := by
  constructor
  · rintro ⟨fields, hfields, h⟩
    obtain rfl : root = fields := Value.object.inj hfields
    exact h
  · exact fun h => ⟨root, rfl, h⟩

theorem fits_empty (key : String) (path : List String) : Fits P ∅ (key :: path) :=
  fits_cons_iff.mpr fun _ h => nomatch h

/-- Above its slot a condition that fits has an object or nothing. -/
theorem Fits.get?_cases {root : Condition} {key : String} {path : List String}
    (h : Fits P root (key :: path)) (hpath : path ≠ []) :
    root.get? key = none ∨
      ∃ fields : Fields, root.get? key = some (.object fields) ∧ Fits P fields path := by
  cases hget : root.get? key with
  | none => exact .inl rfl
  | some inner =>
    have hinner := fits_cons_iff.mp h inner hget
    cases path with
    | nil => exact absurd rfl hpath
    | cons first rest =>
      obtain ⟨fields, rfl, -⟩ := id hinner
      exact .inr ⟨fields, rfl, hinner⟩

theorem under_of_none {root : Fields} {key : String} (h : root.get? key = none) :
    root.under key = ∅ := by
  rw [Fields.under, h]

theorem under_of_object {root fields : Fields} {key : String}
    (h : root.get? key = some (.object fields)) : root.under key = fields := by
  rw [Fields.under, h]
  rfl

theorem Fits.under {root : Condition} {key : String} {path : List String}
    (h : Fits P root (key :: path)) (hpath : path ≠ []) : Fits P (root.under key) path := by
  rcases h.get?_cases hpath with hnone | ⟨fields, hsome, hfields⟩
  · rw [under_of_none hnone]
    obtain ⟨first, rest, rfl⟩ := List.exists_cons_of_ne_nil hpath
    exact fits_empty first rest
  · rwa [under_of_object hsome]

/-- Where the merged-into side has nothing, a merge leaves the object of the other side. -/
theorem under_merge_of_none {t u : Condition} {key : String} (hkey : isCombinator key = false)
    (ht : t.get? key = none) : (t.merge u).under key = u.under key := by
  rw [Fields.under, Fields.under]
  cases hu : u.get? key with
  | none => rw [get?_merge_of_none hu, ht]
  | some value => rw [get?_merge_of_some hu, ht, written_none hkey]

/-- Where the merged-into side has an object, a merge reaches into it. -/
theorem under_merge_of_object {t u : Condition} {key : String} (hkey : isCombinator key = false)
    {fields : Fields} (ht : t.get? key = some (.object fields))
    (hu : u.get? key = none ∨ ∃ inner : Fields, u.get? key = some (.object inner)) :
    (t.merge u).under key = merge fields (u.under key) := by
  rcases hu with hnone | ⟨inner, hsome⟩
  · have hget := get?_merge_of_none (t := t) hnone
    rw [ht] at hget
    rw [under_of_object hget, under_of_none hnone]
    rfl
  · have hget := get?_merge_of_some (t := t) hsome
    rw [ht, written_some hkey, coalesce_object_object] at hget
    rw [under_of_object hget, under_of_object hsome]
    rfl

/-- A write into a merged condition may be made after the merge instead. -/
theorem merge_assignValue {last : String} (hP : Coalescing last P) (parents : List String)
    (hparents : ∀ key ∈ parents, isCombinator key = false) {t u : Condition} {value : Value}
    (ht : Fits P t (parents ++ [last])) (hu : Fits P u (parents ++ [last])) (hvalue : P value) :
    t.merge (u.assignValue (parents ++ [last]) value) =
      (t.merge u).assignValue (parents ++ [last]) value := by
  induction parents generalizing t u with
  | nil =>
    have hslot : written last (t.get? last) (written last (u.get? last) value) =
        written last ((t.merge u).get? last) value := by
      cases hget : u.get? last with
      | none => rw [get?_merge_of_none hget, hP.fresh]
      | some slot =>
        rw [get?_merge_of_some hget]
        exact hP.assoc (fits_cons_iff.mp ht) (fits_cons_iff.mp hu slot hget) hvalue
    rw [List.nil_append, assignValue_singleton, assignValue_singleton, setKey_eq, setKey_eq,
      merge_insert, hslot]
  | cons first parents ih =>
    have hfirst := hparents first List.mem_cons_self
    have hrest : ∀ key ∈ parents, isCombinator key = false :=
      fun key hkey => hparents key (List.mem_cons_of_mem first hkey)
    have hpath := List.concat_ne_nil last parents
    rw [List.cons_append, assignValue_cons, assignValue_cons, merge_insert]
    rcases ht.get?_cases hpath with hnone | ⟨fields, hsome, hfields⟩
    · rw [hnone, written_none hfirst, under_merge_of_none hfirst hnone]
    · have hobject : u.get? first = none ∨
          ∃ inner : Fields, u.get? first = some (.object inner) := by
        rcases hu.get?_cases hpath with hnone | ⟨inner, hinner, -⟩
        · exact .inl hnone
        · exact .inr ⟨inner, hinner⟩
      have hbelow := ih hrest hfields (hu.under hpath)
      rw [hsome, written_some hfirst, coalesce_object_object,
        under_merge_of_object hfirst hsome hobject]
      exact congrArg (fun inner => (t.merge u).insert first (.object inner)) hbelow

/-- A write keeps a condition fitting for its own slot. -/
theorem Fits.assignValue {last : String} (hP : Coalescing last P) (parents : List String)
    {root : Condition} {value : Value} (hroot : Fits P root (parents ++ [last]))
    (hvalue : P value) :
    Fits P (root.assignValue (parents ++ [last]) value) (parents ++ [last]) := by
  induction parents generalizing root with
  | nil =>
    refine fits_cons_iff.mpr fun inner hinner => ?_
    rw [List.nil_append, assignValue_singleton, get?_setKey_self] at hinner
    exact Option.some.inj hinner ▸ hP.keeps (fits_cons_iff.mp hroot) hvalue
  | cons first parents ih =>
    refine fits_cons_iff.mpr fun inner hinner => ?_
    rw [List.cons_append, assignValue_cons, Dict.get?_insert_self] at hinner
    exact Option.some.inj hinner ▸ ih (hroot.under (List.concat_ne_nil last parents))

/-- A write keeps a condition fitting for the slots that are neither above nor below its own. -/
theorem Fits.assignValue_of_incomparable {last : String} (parents slot : List String)
    (habove : ¬slot <+: parents ++ [last]) (hbelow : ¬parents ++ [last] <+: slot)
    {root : Condition} (value : Value) (hroot : Fits P root slot) :
    Fits P (root.assignValue (parents ++ [last]) value) slot := by
  induction parents generalizing root slot with
  | nil =>
    cases slot with
    | nil => exact absurd List.nil_prefix habove
    | cons key path =>
      have hne : key ≠ last := by
        rintro rfl
        exact hbelow (List.cons_prefix_cons.mpr ⟨rfl, List.nil_prefix⟩)
      refine fits_cons_iff.mpr fun inner hinner => ?_
      rw [List.nil_append, assignValue_singleton, get?_setKey_of_ne _ hne] at hinner
      exact fits_cons_iff.mp hroot inner hinner
  | cons first parents ih =>
    cases slot with
    | nil => exact absurd List.nil_prefix habove
    | cons key path =>
      refine fits_cons_iff.mpr fun inner hinner => ?_
      rw [List.cons_append, assignValue_cons] at hinner
      by_cases hkey : key = first
      · subst hkey
        rw [List.cons_append, List.cons_prefix_cons, eq_self, true_and] at habove hbelow
        have hpath : path ≠ [] := by
          rintro rfl
          exact habove List.nil_prefix
        rw [Dict.get?_insert_self] at hinner
        exact Option.some.inj hinner ▸ ih path habove hbelow (hroot.under hpath)
      · rw [Dict.get?_insert_of_ne _ _ hkey] at hinner
        exact fits_cons_iff.mp hroot inner hinner

end Condition

end Abac
