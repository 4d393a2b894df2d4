import Abac.Proofs.Dict

/-!
Computations that may fail, one after the other. A row of them succeeds if each one does, and else
it fails like the first that fails: for two computations in a row (`bind_eq_error_iff`), for those
of the elements of a list (`mapM_eq_error_iff`), and for those of the values of a dictionary, which
come in the order of their keys (`Entries.traverse_eq_error_iff`).
-/
namespace Abac

variable {ε α β : Type} {f : α → Except ε β} {e : ε}

theorem eq_ok_of_toOption {result : Except ε α} {value : α} (h : result.toOption = some value) :
    result = .ok value := by
  cases result with
  | error e => cases h
  | ok a => exact congrArg Except.ok (Option.some.inj h)

theorem bind_eq_ok_iff {first : Except ε α} {result : β} :
    first >>= f = .ok result ↔ ∃ value, first = .ok value ∧ f value = .ok result := by
  cases first <;> simp [bind, Except.bind]

theorem bind_eq_error_iff {first : Except ε α} :
    first >>= f = .error e ↔ first = .error e ∨ ∃ value, first = .ok value ∧ f value = .error e := by
  cases first <;> simp [bind, Except.bind]

theorem map_eq_error_iff {g : α → β} {result : Except ε α} :
    result.map g = .error e ↔ result = .error e := by
  cases result <;> simp [Except.map]

theorem exists_mapM_eq_ok_iff {xs : List α} :
    (∃ ys, xs.mapM f = .ok ys) ↔ ∀ x ∈ xs, ∃ y, f x = .ok y := by
  induction xs with
  | nil => exact iff_of_true ⟨[], rfl⟩ fun _ hx => absurd hx List.not_mem_nil
  | cons x xs ih =>
    rw [List.forall_mem_cons, ← ih, List.mapM_cons]
    constructor
    · rintro ⟨ys, h⟩
      obtain ⟨y, hy, h⟩ := bind_eq_ok_iff.mp h
      obtain ⟨rest, hrest, -⟩ := bind_eq_ok_iff.mp h
      exact ⟨⟨y, hy⟩, rest, hrest⟩
    · rintro ⟨⟨y, hy⟩, rest, hrest⟩
      exact ⟨y :: rest, bind_eq_ok_iff.mpr ⟨y, hy, bind_eq_ok_iff.mpr ⟨rest, hrest, rfl⟩⟩⟩

/-- If a list is mapped by a computation that may fail, every value comes of an element. -/
theorem exists_of_mapM {xs : List α} {ys : List β} (h : xs.mapM f = .ok ys) :
    ∀ y ∈ ys, ∃ x ∈ xs, f x = .ok y := by
  induction xs generalizing ys with
  | nil =>
    obtain rfl : [] = ys := Except.ok.inj h
    exact fun _ hy => absurd hy List.not_mem_nil
  | cons x xs ih =>
    rw [List.mapM_cons] at h
    obtain ⟨y, hx, h⟩ := bind_eq_ok_iff.mp h
    obtain ⟨rest, hxs, h⟩ := bind_eq_ok_iff.mp h
    obtain rfl := Except.ok.inj h
    refine List.forall_mem_cons.mpr ⟨⟨x, List.mem_cons_self, hx⟩, fun other hother => ?_⟩
    obtain ⟨source, hsource, hother⟩ := ih hxs other hother
    exact ⟨source, List.mem_cons_of_mem x hsource, hother⟩

/-- The elements of a list are taken up to the first for which the computation fails. -/
theorem mapM_eq_error_iff {xs : List α} :
    xs.mapM f = .error e ↔ ∃ before x after, xs = before ++ x :: after ∧
      (∀ earlier ∈ before, ∃ y, f earlier = .ok y) ∧ f x = .error e := by
  induction xs with
  | nil => exact iff_of_false nofun (by simp)
  | cons x xs ih =>
    rw [List.mapM_cons, bind_eq_error_iff]
    have hrest (y : β) : (do return y :: (← xs.mapM f)) = .error e ↔ xs.mapM f = .error e := by
      rw [bind_eq_error_iff]
      exact or_iff_left fun ⟨_, _, h⟩ => nomatch h
    simp only [hrest, ih]
    constructor
    · rintro (hx | ⟨y, hy, before, later, after, rfl, hbefore, hlater⟩)
      · exact ⟨[], x, xs, rfl, fun _ h => absurd h List.not_mem_nil, hx⟩
      · exact ⟨x :: before, later, after, rfl, List.forall_mem_cons.mpr ⟨⟨y, hy⟩, hbefore⟩, hlater⟩
    · rintro ⟨before, later, after, hxs, hbefore, hlater⟩
      cases before with
      | nil =>
        obtain ⟨rfl, rfl⟩ := List.cons.inj hxs
        exact .inl hlater
      | cons first before =>
        obtain ⟨rfl, rfl⟩ := List.cons.inj hxs
        obtain ⟨⟨y, hy⟩, hbefore⟩ := List.forall_mem_cons.mp hbefore
        exact .inr ⟨y, hy, before, later, after, rfl, hbefore, hlater⟩

namespace Entries

variable {low : Option String}

def traverse (f : α → Except ε β) : {low : Option String} → Entries α low →
    Except ε (Entries β low)
  | _, nil => .ok nil
  | _, cons key above value rest => do return .cons key above (← f value) (← traverse f rest)

theorem above_of_get? {entries : Entries α low} {key : String} {value : α}
    (h : entries.get? key = some value) : Above low key := by
  apply Decidable.byContradiction
  intro habove
  rw [get?_eq_none_of_le habove] at h
  cases h

theorem traverse_cons_eq_ok_iff {key : String} {above : Above low key} {value : α}
    {rest : Entries α (some key)} {results : Entries β low} :
    (cons key above value rest).traverse f = .ok results ↔ ∃ first later,
      f value = .ok first ∧ rest.traverse f = .ok later ∧ results = .cons key above first later := by
  rw [traverse, bind_eq_ok_iff]
  simp only [bind_eq_ok_iff, pure, Except.pure, Except.ok.injEq]
  constructor
  · rintro ⟨first, hfirst, later, hlater, rfl⟩
    exact ⟨first, later, hfirst, hlater, rfl⟩
  · rintro ⟨first, later, hfirst, hlater, rfl⟩
    exact ⟨first, hfirst, later, hlater, rfl⟩

theorem exists_traverse_eq_ok_iff {entries : Entries α low} :
    (∃ results, entries.traverse f = .ok results) ↔
      ∀ key value, entries.get? key = some value → ∃ result, f value = .ok result := by
  induction entries with
  | nil => exact iff_of_true ⟨nil, rfl⟩ nofun
  | cons k above first rest ih =>
    simp only [traverse_cons_eq_ok_iff]
    constructor
    · rintro ⟨_, result, later, hfirst, hlater, rfl⟩ key value hget
      rw [get?] at hget
      split at hget
      · exact Option.some.inj hget ▸ ⟨result, hfirst⟩
      · exact ih.mp ⟨later, hlater⟩ key value hget
    · intro h
      obtain ⟨result, hresult⟩ := h k first (by rw [get?, if_pos rfl])
      obtain ⟨later, hlater⟩ := ih.mpr fun key value hget =>
        h key value (get?_cons_of_get?_rest hget)
      exact ⟨_, result, later, hresult, hlater, rfl⟩

/-- Of every entry there is a result under the same key. -/
theorem map_get?_of_traverse {entries : Entries α low} {results : Entries β low}
    (h : entries.traverse f = .ok results) (key : String) :
    (entries.get? key).map f = (results.get? key).map .ok := by
  induction entries with
  | nil =>
    obtain rfl := Except.ok.inj h
    rfl
  | cons k above value rest ih =>
    obtain ⟨first, later, hfirst, hlater, rfl⟩ := traverse_cons_eq_ok_iff.mp h
    rw [get?, get?]
    split
    · rw [Option.map_some, Option.map_some, hfirst]
    · exact ih hlater

theorem traverse_eq_ok_iff {entries : Entries α low} {results : Entries β low} :
    entries.traverse f = .ok results ↔
      ∀ key, (entries.get? key).map f = (results.get? key).map .ok := by
  refine ⟨map_get?_of_traverse, fun h => ?_⟩
  obtain ⟨found, hfound⟩ : ∃ found, entries.traverse f = .ok found := by
    refine exists_traverse_eq_ok_iff.mpr fun key value hget => ?_
    have hkey := h key
    rw [hget, Option.map_some] at hkey
    obtain ⟨result, -, hresult⟩ := Option.map_eq_some_iff.mp hkey.symm
    exact ⟨result, hresult.symm⟩
  rw [hfound, Except.ok.injEq]
  refine ext fun key => ?_
  have hinjective : Function.Injective (Except.ok (ε := ε) (α := β)) := fun _ _ => Except.ok.inj
  exact Option.map_injective hinjective ((map_get?_of_traverse hfound key).symm.trans (h key))

/-- The entries are taken in the order of their keys, up to the first for which the computation
fails. -/
theorem traverse_eq_error_iff {entries : Entries α low} :
    entries.traverse f = .error e ↔ ∃ key value, entries.get? key = some value ∧
      (∀ earlier other, earlier < key → entries.get? earlier = some other →
        ∃ result, f other = .ok result) ∧ f value = .error e := by
  induction entries with
  | nil => exact iff_of_false nofun fun ⟨_, _, hget, _⟩ => nomatch hget
  | cons k above first rest ih =>
    have hrest (result : β) : (do return cons k above result (← traverse f rest)) = .error e ↔
        rest.traverse f = .error e := by
      rw [bind_eq_error_iff]
      exact or_iff_left fun ⟨_, _, h⟩ => nomatch h
    rw [traverse, bind_eq_error_iff]
    simp only [hrest, ih]
    constructor
    · rintro (hfirst | ⟨result, hresult, key, value, hget, hearlier, hvalue⟩)
      · refine ⟨k, first, by rw [get?, if_pos rfl], fun earlier other hlt hget => ?_, hfirst⟩
        -- No key is less than the first one.
        rw [get?, if_neg (String.ne_of_lt hlt)] at hget
        exact absurd (String.lt_trans hlt (above_of_get? hget)) (String.lt_irrefl earlier)
      · refine ⟨key, value, get?_cons_of_get?_rest hget, fun earlier other hlt hother => ?_, hvalue⟩
        rw [get?] at hother
        split at hother
        · exact Option.some.inj hother ▸ ⟨result, hresult⟩
        · exact hearlier earlier other hlt hother
    · rintro ⟨key, value, hget, hearlier, hvalue⟩
      rw [get?] at hget
      split at hget
      · exact .inl (Option.some.inj hget ▸ hvalue)
      · obtain ⟨result, hresult⟩ := hearlier k first (above_of_get? hget) (by rw [get?, if_pos rfl])
        exact .inr ⟨result, hresult, key, value, hget, fun earlier other hlt hother =>
          hearlier earlier other hlt (get?_cons_of_get?_rest hother), hvalue⟩

end Entries

end Abac
