import Abac.Proofs.Snapshot.Disclosure

/-!
What a snapshot keeps of a piece of JSON. After the value at a place was inserted, every path from
there on can be followed in the snapshot as in the JSON itself, arrays by index
(`Keeps.follow?_eq`). An insertion at another place puts objects on its way. That changes nothing
for the path unless the way leads through an array that is kept and that the path meets, too
(`Keeps.insertAt`).
-/
namespace Abac

namespace Value

def follow? (value : Value) : List String → Option Value
  | [] => some value
  | segment :: path =>
    match value with
    | .object fields => (fields.get? segment).bind fun inner => inner.follow? path
    | .array items =>
      (arrayIndex? segment).bind fun index => items[index]?.bind fun inner => inner.follow? path
    | _ => none

theorem getElem?_ofJsonItems (items : List Json) (index : Nat) :
    (ofJsonItems items)[index]? = items[index]?.map ofJson := by
  induction items generalizing index with
  | nil => rfl
  | cons item rest ih =>
    cases index with
    | zero => rfl
    | succ index => exact ih index

/-- A path leads in the value of a piece of JSON where it leads in the JSON itself. -/
theorem follow?_ofJson (json : Json) (path : List String) :
    (ofJson json).follow? path = (json.at? path).map ofJson := by
  induction path generalizing json with
  | nil => rfl
  | cons segment path ih =>
    cases json with
    | object fields =>
      rw [ofJson, follow?, get?_ofJsonFields, Json.at?]
      cases fields.get? segment with
      | none => rfl
      | some inner => exact ih inner
    | array items =>
      rw [ofJson, follow?, Json.at?]
      cases arrayIndex? segment with
      | none => rfl
      | some index =>
        rw [Option.bind_some, Option.bind_some, getElem?_ofJsonItems]
        cases items[index]? with
        | none => rfl
        | some inner => exact ih inner
    | _ => rfl

end Value

theorem Dict.insert_eq_self {α : Type} {dict : Dict α} {key : String} {value : α}
    (h : dict.get? key = some value) : dict.insert key value = dict := by
  apply Dict.ext
  intro other
  rw [Dict.get?_insert]
  split
  · next hother => rw [hother, h]
  · rfl

theorem Fields.get?_insertAt_of_ne {key first : String} (hne : key ≠ first) (root : Fields)
    (path : List String) (value : Value) :
    (root.insertAt (first :: path) value).get? key = root.get? key := by
  cases path with
  | nil => rw [insertAt_singleton, Dict.get?_insert_of_ne root _ hne]
  | cons next path => rw [insertAt_cons_cons, Dict.get?_insert_of_ne root _ hne]

namespace Json

theorem at?_cons {json inner : Json} {segment : String} (h : json.at? [segment] = some inner)
    (path : List String) : json.at? (segment :: path) = inner.at? path := by
  have happend := json.at?_append [segment] path
  rwa [h] at happend

theorem exists_of_at?_cons {json target : Json} {segment : String} {path : List String}
    (h : json.at? (segment :: path) = some target) :
    ∃ inner, json.at? [segment] = some inner ∧ inner.at? path = some target := by
  rw [← List.singleton_append, at?_append, Option.bind_eq_some_iff] at h
  exact h

/-- What is no array and has an inside is an object. -/
theorem exists_object_of_at?_cons {json target : Json} {segment : String} {path : List String}
    (h : json.at? (segment :: path) = some target) (harray : ∀ items, json ≠ .array items) :
    ∃ fields inner, json = .object fields ∧ fields.get? segment = some inner ∧
      inner.at? path = some target := by
  cases json with
  | object fields =>
    obtain ⟨inner, hget, hinner⟩ := Option.bind_eq_some_iff.mp h
    exact ⟨fields, inner, rfl, hget, hinner⟩
  | array items => exact absurd rfl (harray items)
  | _ => exact nomatch h

/-- The way to a later place breaks into what is kept from a place on if it leads through an array
there. For a path only those arrays matter that are on the way to its end, at its end or below. -/
def BreaksInto (json : Json) (place path later : List String) : Prop :=
  ∃ above, place <+: above ∧ above <+: later ∧ above ≠ later ∧ (above <+: path ∨ path <+: above) ∧
    ∃ items, json.at? above = some (.array items)

/-- What breaks into an inner piece breaks into the whole. -/
theorem BreaksInto.cons {json inner : Json} {segment : String} {place path later : List String}
    (hinner : json.at? [segment] = some inner) (h : inner.BreaksInto place.tail path later)
    (hplace : place = [] ∨ place.head? = some segment) :
    json.BreaksInto place (segment :: path) (segment :: later) := by
  obtain ⟨above, hbelow, hlater, hne, hpath, items, hitems⟩ := h
  refine ⟨segment :: above, ?_, List.cons_prefix_cons.mpr ⟨rfl, hlater⟩, ?_, ?_, items, ?_⟩
  · cases place with
    | nil => exact List.nil_prefix
    | cons first rest =>
      rcases hplace with hnil | hhead
      · exact absurd hnil (List.cons_ne_nil first rest)
      · exact List.cons_prefix_cons.mpr ⟨Option.some.inj hhead, hbelow⟩
  · exact fun heq => hne (List.cons.inj heq).2
  · exact hpath.imp (fun h => List.cons_prefix_cons.mpr ⟨rfl, h⟩)
      fun h => List.cons_prefix_cons.mpr ⟨rfl, h⟩
  · rw [at?_cons hinner, hitems]

/-- Inserting the value at a place into the value of the whole changes nothing if no array is on
the way. -/
theorem insertAt_ofJson {json read : Json} {later : List String} (hne : later ≠ [])
    (hread : json.at? later = some read)
    (harray : ∀ above, above <+: later → above ≠ later →
      ∀ items, json.at? above ≠ some (.array items)) :
    Value.object (Fields.insertAt (Value.ofJson json).fields later (.ofJson read)) =
      .ofJson json := by
  induction later generalizing json with
  | nil => exact absurd rfl hne
  | cons segment later ih =>
    have hjson : ∀ items, json ≠ .array items := fun items hitems =>
      harray [] List.nil_prefix (List.cons_ne_nil segment later).symm items (hitems ▸ rfl)
    obtain ⟨fields, inner, rfl, hget, hinner⟩ := exists_object_of_at?_cons hread hjson
    have hvalue : (Value.ofJsonFields fields).get? segment = some (.ofJson inner) := by
      rw [Value.get?_ofJsonFields, hget]
      rfl
    change Value.object (Fields.insertAt (Value.ofJsonFields fields) _ _) =
      .object (Value.ofJsonFields fields)
    cases later with
    | nil =>
      obtain rfl := Option.some.inj hinner
      rw [Fields.insertAt_singleton, Dict.insert_eq_self hvalue]
    | cons next rest =>
      have hunder : Fields.under (Value.ofJsonFields fields) segment =
          (Value.ofJson inner).fields := by
        rw [Fields.under, hvalue]
      have hrest := ih (List.cons_ne_nil next rest) hinner fun above habove hneq items hitems =>
        harray (segment :: above) (List.cons_prefix_cons.mpr ⟨rfl, habove⟩)
          (fun heq => hneq (List.cons.inj heq).2) items
          ((at?_cons (by rw [at?, hget]; rfl) above).trans hitems)
      rw [Fields.insertAt_cons_cons, hunder, hrest, Dict.insert_eq_self hvalue]

end Json

/-- A value keeps what a piece of JSON has from a place on, as far as a path there is concerned. The
way to the place is a way through objects, whatever it leads through in the JSON. From the place on
the value is that of the JSON, or at least an object as there with what the path leads to. -/
inductive Keeps : List String → List String → Value → Json → Prop where
  | whole (path : List String) (json : Json) : Keeps [] path (.ofJson json) json
  | inside {segment : String} {path : List String} {root : Fields} {value : Value}
      {fields : Dict Json} {json : Json} (hget : root.get? segment = some value)
      (hjson : fields.get? segment = some json) (h : Keeps [] path value json) :
      Keeps [] (segment :: path) (.object root) (.object fields)
  | above {segment : String} {place path : List String} {root : Fields} {value : Value}
      {json inner : Json} (hget : root.get? segment = some value)
      (hinner : json.at? [segment] = some inner) (h : Keeps place path value inner) :
      Keeps (segment :: place) (segment :: path) (.object root) json

namespace Keeps

variable {place path : List String} {value : Value} {json : Json}

/-- A path can be followed in a value that keeps it. -/
theorem follow?_eq (h : Keeps place path value json) :
    value.follow? path = (json.at? path).map Value.ofJson := by
  induction h with
  | whole path json => exact Value.follow?_ofJson json path
  | inside hget hjson _ ih =>
    rw [Value.follow?, Json.at?, hget, hjson]
    exact ih
  | above hget hinner _ ih =>
    rw [Json.at?_cons hinner, Value.follow?, hget]
    exact ih

/-- What is kept of a path is an object with what is kept under the first segment of the path, and
may be put together of these again. -/
theorem exists_step {segment : String} {target : Json}
    (h : Keeps place (segment :: path) value json) (hpath : json.at? (segment :: path) = some target)
    (harray : place = [] → ∀ items, json ≠ .array items) :
    ∃ (root : Fields) (first : Value) (inner : Json), value = .object root ∧
      root.get? segment = some first ∧ json.at? [segment] = some inner ∧
      (place = [] ∨ place.head? = some segment) ∧ Keeps place.tail path first inner ∧
      ∀ (root : Fields) (first : Value), root.get? segment = some first →
        Keeps place.tail path first inner → Keeps place (segment :: path) (.object root) json := by
  cases h with
  | whole =>
    obtain ⟨fields, inner, rfl, hget, hinner⟩ := Json.exists_object_of_at?_cons hpath (harray rfl)
    refine ⟨Value.ofJsonFields fields, .ofJson inner, inner, rfl, ?_, ?_, .inl rfl,
      .whole path inner, fun root first hfirst hkeeps => .inside hfirst hget hkeeps⟩
    · rw [Value.get?_ofJsonFields, hget]
      rfl
    · rw [Json.at?, hget]
      rfl
  | @inside _ _ root first fields inner hget hjson hkeeps =>
    refine ⟨root, first, inner, rfl, hget, ?_, .inl rfl, hkeeps,
      fun root first hfirst hkeeps => .inside hfirst hjson hkeeps⟩
    rw [Json.at?, hjson]
    rfl
  | @above _ place _ root first _ inner hget hinner hkeeps =>
    exact ⟨root, first, inner, rfl, hget, hinner, .inr rfl, hkeeps,
      fun root first hfirst hkeeps => .above hfirst hinner hkeeps⟩

/-- An insertion of what the JSON has at a later place, which is not on the way to the path, leaves
what is kept if it does not break into it. -/
theorem insertAt {later : List String} {target read : Json} (h : Keeps place path value json)
    (hpath : json.at? path = some target) (hread : json.at? later = some read)
    (hlater : ¬later <+: path) (hbreaks : ¬json.BreaksInto place path later) :
    Keeps place path (.object (Fields.insertAt value.fields later (.ofJson read))) json := by
  have hne : later ≠ [] := by
    rintro rfl
    exact hlater List.nil_prefix
  induction path generalizing place later value json with
  | nil =>
    cases h with
    | whole =>
      rw [Json.insertAt_ofJson hne hread fun above habove hneq items hitems =>
        hbreaks ⟨above, List.nil_prefix, habove, hneq, .inr List.nil_prefix, items, hitems⟩]
      exact .whole [] json
  | cons segment path ih =>
    obtain ⟨first, rest, rfl⟩ := List.exists_cons_of_ne_nil hne
    have harray : place = [] → ∀ items, json ≠ .array items := by
      rintro rfl items rfl
      exact hbreaks
        ⟨[], List.nil_prefix, List.nil_prefix, hne.symm, .inl List.nil_prefix, items, rfl⟩
    obtain ⟨root, old, inner, rfl, hget, hinner, hplace, hkeeps, hbuild⟩ :=
      h.exists_step hpath harray
    change Keeps place (segment :: path) (.object (root.insertAt (first :: rest) _)) json
    by_cases hfirst : segment = first
    · subst hfirst
      rw [List.cons_prefix_cons, eq_self, true_and] at hlater
      have hrest : rest ≠ [] := by
        rintro rfl
        exact hlater List.nil_prefix
      rw [Json.at?_cons hinner] at hpath hread
      have hunder : root.under segment = old.fields := by rw [Fields.under, hget]
      have hinside : ¬inner.BreaksInto place.tail path rest :=
        fun hinside => hbreaks (hinside.cons hinner hplace)
      have hafter := ih hkeeps hpath hread hlater hinside hrest
      obtain ⟨next, more, rfl⟩ := List.exists_cons_of_ne_nil hrest
      rw [Fields.insertAt_cons_cons, hunder]
      exact hbuild _ _ (Dict.get?_insert_self _ _ _) hafter
    · exact hbuild _ old ((Fields.get?_insertAt_of_ne hfirst root rest _).trans hget) hkeeps

/-- An insertion of what the JSON has at a place keeps the JSON from there on. -/
theorem of_insertAt {place path : List String} (hne : place ≠ []) (hplace : place <+: path)
    {json read : Json} (hread : json.at? place = some read) (root : Fields) :
    Keeps place path (.object (root.insertAt place (.ofJson read))) json := by
  induction place generalizing path json root with
  | nil => exact absurd rfl hne
  | cons segment place ih =>
    obtain ⟨inner, hinner, hrest⟩ := Json.exists_of_at?_cons hread
    cases path with
    | nil => exact absurd (List.prefix_nil.mp hplace) hne
    | cons first path =>
      obtain ⟨rfl, hbelow⟩ := List.cons_prefix_cons.mp hplace
      cases place with
      | nil =>
        obtain rfl := Option.some.inj hrest
        rw [Fields.insertAt_singleton]
        exact .above (Dict.get?_insert_self _ _ _) hinner (.whole path inner)
      | cons next more =>
        rw [Fields.insertAt_cons_cons]
        exact .above (Dict.get?_insert_self _ _ _) hinner
          (ih (List.cons_ne_nil next more) hbelow hrest (root.under segment))

/-- Taking over all fields keeps the whole object if there are no other keys. -/
theorem of_extend {root : Fields} {fields : Dict Json}
    (hkeys : ∀ key, fields.get? key = none → root.get? key = none) (path : List String) :
    Keeps [] path (.object (root.extend (Value.ofJsonFields fields))) (.object fields) := by
  have hwhole : root.extend (Value.ofJsonFields fields) = Value.ofJsonFields fields := by
    apply Dict.ext
    intro key
    rw [Dict.get?_extend, Value.get?_ofJsonFields]
    cases hget : fields.get? key with
    | none => rw [hkeys key hget]; rfl
    | some json => rfl
  rw [hwhole]
  exact .whole path (.object fields)

end Keeps

end Abac
