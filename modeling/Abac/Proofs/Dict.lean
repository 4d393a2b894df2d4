import Abac.Condition

/-!
Dictionaries seen through their lookups: what insertions and a removal change, what a list of
pairs makes, when a dictionary has no entry, and when all of its keys are operator keys. The keys
themselves come in increasing order.
-/
namespace Abac

theorem not_above_self (key : String) : ¬Above (some key) key := String.lt_irrefl key

namespace Entries

variable {α : Type} {low : Option String}

theorem isEmpty_eq_false_iff (entries : Entries α low) :
    entries.isEmpty = false ↔ ∃ key value, entries.get? key = some value := by
  cases entries with
  | nil => simp [isEmpty, get?]
  | cons k above value rest => simpa [isEmpty] using ⟨k, value, by simp [get?]⟩

/-- Entries under the same keys are all of them empty or none. -/
theorem isEmpty_congr {β : Type} {entries : Entries α low} {others : Entries β low}
    (h : ∀ key, entries.contains key = others.contains key) : entries.isEmpty = others.isEmpty := by
  have hsome {γ : Type} (xs : Entries γ low) :
      xs.isEmpty = false ↔ ∃ key, xs.contains key = true := by
    simp [isEmpty_eq_false_iff, contains, Option.isSome_iff_exists]
  rw [Bool.eq_iff_iff, ← Decidable.not_iff_not, Bool.not_eq_true, Bool.not_eq_true, hsome, hsome]
  simp only [h]

/-- Keys of the rest lie above the first key, so they are found behind it. -/
theorem get?_cons_of_get?_rest {k key : String} {above : Above low k} {first value : α}
    {rest : Entries α (some k)} (h : rest.get? key = some value) :
    (cons k above first rest).get? key = some value := by
  have hne : key ≠ k := by
    rintro rfl
    rw [get?_eq_none_of_le (not_above_self key) rest] at h
    exact nomatch h
  rw [get?, if_neg hne, h]

theorem get?_lower {bound : Option String} (h : ∀ key, Above low key → Above bound key)
    (entries : Entries α low) (key : String) : (entries.lower h).get? key = entries.get? key := by
  cases entries <;> rfl

theorem get?_erase (entries : Entries α low) (key other : String) :
    (entries.erase key).get? other = if other = key then none else entries.get? other := by
  induction entries with
  | nil => simp [erase, get?]
  | cons k above value rest ih =>
    rw [erase]
    by_cases hkey : key = k
    · subst hkey
      rw [if_pos rfl, get?_lower]
      by_cases hother : other = key
      · rw [if_pos hother, hother, get?_eq_none_of_le (not_above_self key) rest]
      · rw [if_neg hother, get?, if_neg hother]
    · rw [if_neg hkey, get?, get?, ih]
      by_cases hother : other = k
      · rw [if_pos hother, if_pos hother, if_neg (hother ▸ Ne.symm hkey)]
      · rw [if_neg hother, if_neg hother]

theorem keys_cons (key : String) (above : Above low key) (value : α)
    (rest : Entries α (some key)) : (cons key above value rest).keys = key :: rest.keys :=
  rfl

theorem mem_keys_iff (entries : Entries α low) (key : String) :
    key ∈ entries.keys ↔ entries.contains key = true := by
  induction entries with
  | nil => simp [keys, toList, contains, get?]
  | cons k above value rest ih =>
    rw [keys_cons, List.mem_cons, ih, contains, contains, get?]
    by_cases hkey : key = k <;> simp [hkey]

theorem above_of_mem_keys {entries : Entries α low} {key : String} (h : key ∈ entries.keys) :
    Above low key := by
  apply Decidable.byContradiction
  intro habove
  rw [mem_keys_iff, contains, get?_eq_none_of_le habove] at h
  cases h

/-- Keys are enumerated in strictly increasing order. -/
theorem pairwise_keys (entries : Entries α low) : entries.keys.Pairwise (· < ·) := by
  induction entries with
  | nil => exact .nil
  | cons key above value rest ih =>
    exact List.pairwise_cons.mpr ⟨fun _ hmem => above_of_mem_keys hmem, ih⟩

theorem allDollar_iff (entries : Entries α low) :
    entries.allDollar = true ↔
      ∀ key value, entries.get? key = some value → isDollarKey key = true := by
  induction entries with
  | nil => simp [allDollar, get?]
  | cons k above first rest ih =>
    rw [allDollar, Bool.and_eq_true, ih]
    constructor
    · rintro ⟨hfirst, hrest⟩ key value hget
      by_cases hkey : key = k
      · exact hkey ▸ hfirst
      · rw [get?, if_neg hkey] at hget
        exact hrest key value hget
    · intro h
      refine ⟨h k first (by simp [get?]), fun key value hget => ?_⟩
      exact h key value (get?_cons_of_get?_rest hget)

end Entries

namespace Dict

variable {α : Type}

theorem get?_insert (dict : Dict α) (key other : String) (value : α) :
    (dict.insert key value).get? other = if other = key then some value else dict.get? other := by
  by_cases h : other = key
  · rw [if_pos h, h, get?_insert_self]
  · rw [if_neg h, get?_insert_of_ne dict value h]

theorem insert_insert (dict : Dict α) (key : String) (old new : α) :
    (dict.insert key old).insert key new = dict.insert key new := by
  apply ext
  intro other
  rw [get?_insert, get?_insert, get?_insert]
  by_cases hother : other = key
  · rw [if_pos hother, if_pos hother]
  · rw [if_neg hother, if_neg hother, if_neg hother]

theorem insert_comm (dict : Dict α) {a b : String} (hne : a ≠ b) (x y : α) :
    (dict.insert a x).insert b y = (dict.insert b y).insert a x := by
  apply ext
  intro other
  rw [get?_insert, get?_insert, get?_insert, get?_insert]
  by_cases ha : other = a
  · rw [if_pos ha, if_neg (ha ▸ hne), if_pos ha]
  · rw [if_neg ha, if_neg ha]

theorem lookup_singleton (first key : String) (value : α) :
    [(first, value)].lookup key = if key = first then some value else none := by
  by_cases h : key = first
  · rw [if_pos h, h, List.lookup_cons_self]
  · rw [if_neg h, List.lookup_cons, beq_false_of_ne h, List.lookup_nil]

/-- Changing the values of pairs changes what is found under a key. -/
theorem lookup_map {β : Type} (f : α → β) (pairs : List (String × α)) (key : String) :
    (pairs.map fun pair => (pair.1, f pair.2)).lookup key = (pairs.lookup key).map f := by
  induction pairs with
  | nil => rfl
  | cons pair rest ih =>
    rw [List.map_cons, List.lookup_cons, List.lookup_cons]
    cases key == pair.1 with
    | true => rfl
    | false => exact ih

/-- Of several pairs with one key the last counts. -/
theorem get?_ofList (pairs : List (String × α)) (key : String) :
    (ofList pairs).get? key = pairs.reverse.lookup key := by
  have hfold (dict : Dict α) : (pairs.foldl (fun dict pair => dict.insert pair.1 pair.2) dict).get?
      key = (pairs.reverse.lookup key).or (dict.get? key) := by
    induction pairs generalizing dict with
    | nil => rfl
    | cons pair rest ih =>
      obtain ⟨first, value⟩ := pair
      rw [List.foldl_cons, ih, get?_insert, List.reverse_cons, List.lookup_append, Option.or_assoc,
        lookup_singleton]
      by_cases hkey : key = first
      · rw [if_pos hkey, if_pos hkey, Option.some_or]
      · rw [if_neg hkey, if_neg hkey, Option.none_or]
  rw [ofList, hfold]
  exact Option.or_none

end Dict

end Abac
