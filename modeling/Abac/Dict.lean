/-!
Dictionaries from text to values, kept as entries whose keys strictly increase. The order is part
of the type: an entry carries the proof that its key lies above the key before it, so two
dictionaries with the same lookups are equal (`Dict.ext`) and enumeration is always in key order.
Keys compare character by character in code point order.
-/
namespace Abac

/-- `Above low key` says that `key` may follow the key `low`; with no key before it any may. -/
def Above : Option String → String → Prop
  | none, _ => True
  | some low, key => low < key

instance (low : Option String) (key : String) : Decidable (Above low key) :=
  match low with
  | none => .isTrue trivial
  | some low => inferInstanceAs (Decidable (low < key))

/-- Entries with strictly increasing keys, all of them above `low`. -/
inductive Entries (α : Type) : Option String → Type where
  | nil {low : Option String} : Entries α low
  | cons {low : Option String} (key : String) (above : Above low key) (value : α)
      (rest : Entries α (some key)) : Entries α low

abbrev Dict (α : Type) : Type := Entries α none

theorem above_of_not_lt_of_ne {a b : String} (hlt : ¬a < b) (hne : b ≠ a) : Above (some b) a := by
  apply Decidable.byContradiction
  intro h
  exact hne (String.le_antisymm (String.not_lt.1 hlt) (String.not_lt.1 h))

theorem Above.trans {low : Option String} {a b : String} (ha : Above low a)
    (hab : Above (some a) b) :
    Above low b := by
  cases low with
  | none => trivial
  | some low => exact String.lt_trans ha hab

namespace Entries

variable {α β : Type} {low : Option String}

def get? (key : String) : {low : Option String} → Entries α low → Option α
  | _, nil => none
  | _, cons k _ value rest => if key = k then some value else rest.get? key

def contains (key : String) (entries : Entries α low) : Bool := (entries.get? key).isSome

def toList : {low : Option String} → Entries α low → List (String × α)
  | _, nil => []
  | _, cons key _ value rest => (key, value) :: rest.toList

def keys (entries : Entries α low) : List String := entries.toList.map (·.1)

def size (entries : Entries α low) : Nat := entries.toList.length

def isEmpty : Entries α low → Bool
  | nil => true
  | cons .. => false

def insertAbove (key : String) (value : α) : {low : Option String} → Above low key →
    Entries α low → Entries α low
  | _, h, nil => cons key h value nil
  | _, h, cons k above old rest =>
    if hlt : key < k then cons key h value (cons k hlt old rest)
    else if heq : k = key then cons k above value rest
    else cons k above old (insertAbove key value (above_of_not_lt_of_ne hlt heq) rest)

def lower {bound : Option String} (h : ∀ key, Above low key → Above bound key) :
    Entries α low → Entries α bound
  | nil => nil
  | cons key above value rest => cons key (h key above) value rest

def erase (key : String) : {low : Option String} → Entries α low → Entries α low
  | _, nil => nil
  | _, cons k above value rest =>
    if key = k then rest.lower fun _ h => above.trans h
    else cons k above value (rest.erase key)

def map (f : α → β) : {low : Option String} → Entries α low → Entries β low
  | _, nil => nil
  | _, cons key above value rest => cons key above (f value) (rest.map f)

end Entries

namespace Dict

variable {α : Type}

def empty : Dict α := .nil

instance : EmptyCollection (Dict α) := ⟨empty⟩
instance : Inhabited (Dict α) := ⟨empty⟩

def insert (dict : Dict α) (key : String) (value : α) : Dict α :=
  Entries.insertAbove key value trivial dict

/-- The dictionary of the pairs; of several pairs with one key the last counts. -/
def ofList (pairs : List (String × α)) : Dict α :=
  pairs.foldl (fun dict pair => dict.insert pair.1 pair.2) empty

/-- All entries of both dictionaries; where they share a key, `other` wins. -/
def extend (dict other : Dict α) : Dict α :=
  other.toList.foldl (fun dict pair => dict.insert pair.1 pair.2) dict

end Dict

namespace Entries

variable {α : Type} {low : Option String}

theorem get?_eq_none_of_le {key : String} (h : ¬Above low key) (entries : Entries α low) :
    entries.get? key = none := by
  induction entries with
  | nil => rfl
  | @cons low k above value rest ih =>
    have hk : ¬k < key := fun hlt => h (above.trans hlt)
    have hne : key ≠ k := fun heq => h (heq ▸ above)
    simp [get?, hne, ih hk]

@[simp] theorem get?_insertAbove_self {key : String} {value : α} (h : Above low key)
    (entries : Entries α low) : (entries.insertAbove key value h).get? key = some value := by
  induction entries with
  | nil => simp [insertAbove, get?]
  | cons k above old rest ih =>
    simp only [insertAbove]
    split
    · simp [get?]
    · split
      · next heq => simp [get?, heq]
      · next heq => simp [get?, Ne.symm heq, ih]

theorem get?_insertAbove_of_ne {key other : String} {value : α} (hne : other ≠ key)
    (h : Above low key) (entries : Entries α low) :
    (entries.insertAbove key value h).get? other = entries.get? other := by
  induction entries with
  | nil => simp [insertAbove, get?, hne]
  | cons k above old rest ih =>
    simp only [insertAbove]
    split
    · simp [get?, hne]
    · split
      · next heq => simp [get?, heq, hne]
      · simp [get?, ih]

/-- Entries are determined by their lookups. -/
theorem ext {a b : Entries α low} (h : ∀ key, a.get? key = b.get? key) : a = b := by
  induction a with
  | nil =>
    cases b with
    | nil => rfl
    | cons k _ value _ => simpa [get?] using h k
  | @cons low k above value rest ih =>
    cases b with
    | nil => simpa [get?] using h k
    | cons k' above' value' rest' =>
      have hk : k = k' := by
        apply Decidable.byContradiction
        intro hne
        have hlt : k < k' ∨ k' < k := by
          by_cases hlt : k < k'
          · exact .inl hlt
          · exact .inr (above_of_not_lt_of_ne hlt (Ne.symm hne))
        cases hlt with
        | inl hlt =>
          have hn : ¬Above (some k') k := fun hgt => String.lt_irrefl _ (String.lt_trans hlt hgt)
          have := h k
          simp [get?, hne, get?_eq_none_of_le hn] at this
        | inr hgt =>
          have hn : ¬Above (some k) k' := fun hlt => String.lt_irrefl _ (String.lt_trans hlt hgt)
          have := h k'
          simp [get?, Ne.symm hne, get?_eq_none_of_le hn] at this
      subst hk
      have hv : value = value' := by simpa [get?] using h k
      have hr : rest = rest' := ih fun key => by
        by_cases hkey : key = k
        · have hn : ¬Above (some k) key := hkey ▸ String.lt_irrefl _
          rw [get?_eq_none_of_le hn, get?_eq_none_of_le hn]
        · simpa [get?, hkey] using h key
      subst hv hr
      rfl

end Entries

namespace Dict

variable {α : Type}

@[simp] theorem get?_empty (key : String) : (∅ : Dict α).get? key = none := rfl

@[simp] theorem get?_insert_self (dict : Dict α) (key : String) (value : α) :
    (dict.insert key value).get? key = some value :=
  Entries.get?_insertAbove_self _ dict

theorem get?_insert_of_ne (dict : Dict α) {key other : String} (value : α) (h : other ≠ key) :
    (dict.insert key value).get? other = dict.get? other :=
  Entries.get?_insertAbove_of_ne h _ dict

theorem ext {a b : Dict α} (h : ∀ key, a.get? key = b.get? key) : a = b := Entries.ext h

end Dict

end Abac
