import Abac.Evaluation
import Abac.Proofs.Condition.Normalization
import Abac.Proofs.Snapshot.Keeping

/-!
Mixins. The fields of an object are merged into the user attributes of a result. Reading along
paths of keys, the merge has what the mixins have wherever these end at something other than an
object (`Fields.at?_merge_of_at?`), and what was there before wherever the mixins lead neither along
the path nor past its end (`Fields.at?_merge_of_apart`). A second merge finds everything in place
(`Fields.merge_merge_self`). The laws are carried over to pieces of JSON in
`Evaluation.withUserMixins_laws`.
-/
namespace Abac

namespace Value

/-- What holds of values other than objects, and of objects if it holds of what is in their fields,
holds of every value. -/
@[elab_as_elim]
theorem inductionOnObjects {motive : Value → Prop} (value : Value)
    (plain : ∀ value, value.isObject = false → motive value)
    (object : ∀ fields : Fields, (∀ key inner, fields.get? key = some inner → motive inner) →
      motive (.object fields)) : motive value := by
  induction value using inductionOnForms with
  | atomic value hatomic =>
    refine plain value ?_
    cases value <;> trivial
  | defer c operand _ _ => exact plain _ rfl
  | object fields ih => exact object fields ih

/-- No path leads on from a value other than an object. -/
theorem eq_of_at?_of_isObject_eq_false {value inner : Value} {path : List String}
    (hvalue : value.isObject = false) (h : value.at? path = some inner) :
    path = [] ∧ inner = value := by
  cases path with
  | nil => exact ⟨rfl, (Option.some.inj h).symm⟩
  | cons key path =>
    cases value with
    | object fields => cases hvalue
    | _ => cases h

/-- Every value has a place where no path leads on. -/
theorem exists_at?_not_isFilled (value : Value) :
    ∃ path inner, value.at? path = some inner ∧ inner.isFilled = false := by
  induction value using inductionOnObjects with
  | plain value hvalue =>
    refine ⟨[], value, rfl, ?_⟩
    cases value <;> trivial
  | object fields ih =>
    cases hempty : fields.isEmpty with
    | true => exact ⟨[], .object fields, rfl, by rw [isFilled, hempty]; rfl⟩
    | false =>
      obtain ⟨key, value, hget⟩ := (Entries.isEmpty_eq_false_iff fields).mp hempty
      obtain ⟨path, inner, hat, hinner⟩ := ih key value hget
      exact ⟨key :: path, inner, Fields.at?_cons_eq_some_iff.mpr ⟨value, hget, hat⟩, hinner⟩

end Value

namespace Fields

/-- An object is merged into the object in its slot; anything else there counts as an empty one. -/
theorem mergeSlot_object (old : Option Value) (incoming : Fields) :
    mergeSlot old (.object incoming) = .object (merge (old.elim ∅ Value.fields) incoming) := by
  cases old with
  | none => exact congrArg Value.object (merge_empty_left incoming).symm
  | some slot =>
    cases slot with
    | object existing => rfl
    | _ => exact congrArg Value.object (merge_empty_left incoming).symm

theorem mergeSlot_of_not_isObject (old : Option Value) {value : Value}
    (h : value.isObject = false) : mergeSlot old value = value := by
  cases value with
  | object fields => cases h
  | _ => rfl

variable {root incoming : Fields} {path : List String} {value : Value}

/-- A merge has what the fields that are merged in have where these end. -/
theorem at?_merge_of_at? (h : incoming.at? path = some value) (hvalue : value.isObject = false) :
    (root.merge incoming).at? path = some value := by
  induction path generalizing root incoming with
  | nil =>
    obtain rfl := Option.some.inj h
    cases hvalue
  | cons key path ih =>
    obtain ⟨slot, hget, hat⟩ := at?_cons_eq_some_iff.mp h
    refine at?_cons_eq_some_iff.mpr
      ⟨mergeSlot (root.get? key) slot, by rw [get?_merge, hget], ?_⟩
    cases slot with
    | object inner =>
      rw [mergeSlot_object]
      exact ih hat
    | _ => exact hat

/-- A merge has what the table had before where no path of the fields that are merged in ends on the
way, and none goes past. -/
theorem at?_merge_of_apart (hat : root.at? path = some value) (hvalue : value.isObject = false)
    (hapart : ∀ key leaf inner, incoming.at? (key :: leaf) = some inner → inner.isFilled = false →
      ¬key :: leaf <+: path ∧ ¬path <+: key :: leaf) :
    (root.merge incoming).at? path = some value := by
  induction path generalizing root incoming with
  | nil =>
    obtain rfl := Option.some.inj hat
    cases hvalue
  | cons key path ih =>
    obtain ⟨slot, hslot, hinside⟩ := at?_cons_eq_some_iff.mp hat
    cases hget : incoming.get? key with
    | none => exact at?_cons_eq_some_iff.mpr ⟨slot, by rw [get?_merge, hget, hslot], hinside⟩
    | some entry =>
      have hbelow (leaf : List String) (inner : Value) (hleaf : entry.at? leaf = some inner)
          (hinner : inner.isFilled = false) : ¬leaf <+: path ∧ ¬path <+: leaf := by
        simpa only [List.cons_prefix_cons, eq_self, true_and] using
          hapart key leaf inner (at?_cons_eq_some_iff.mpr ⟨entry, hget, hleaf⟩) hinner
      -- Both sides hold objects under the key, or else a path of one ends on the way of the other.
      cases hentry : entry.isObject with
      | false =>
        have hplain : entry.isFilled = false := by cases entry <;> trivial
        exact absurd List.nil_prefix (hbelow [] entry rfl hplain).1
      | true =>
        cases hobject : slot.isObject with
        | false =>
          obtain ⟨rfl, -⟩ := Value.eq_of_at?_of_isObject_eq_false hobject hinside
          obtain ⟨leaf, inner, hleaf, hinner⟩ := entry.exists_at?_not_isFilled
          exact absurd List.nil_prefix (hbelow leaf inner hleaf hinner).2
        | true =>
          cases slot with
          | object existing =>
            cases entry with
            | object inner =>
              refine at?_cons_eq_some_iff.mpr ⟨.object (merge existing inner), ?_, ?_⟩
              · rw [get?_merge, hget, hslot]
                rfl
              · exact ih hinside fun next leaf last hlast => hbelow (next :: leaf) last hlast
            | _ => cases hentry
          | _ => cases hobject

/-- What a value leaves in a slot it leaves as it is. -/
theorem mergeSlot_mergeSlot_self (old : Option Value) (value : Value) :
    mergeSlot (some (mergeSlot old value)) value = mergeSlot old value := by
  induction value using Value.inductionOnObjects generalizing old with
  | plain value hvalue =>
    rw [mergeSlot_of_not_isObject _ hvalue, mergeSlot_of_not_isObject _ hvalue]
  | object incoming ih =>
    rw [mergeSlot_object old, mergeSlot_object]
    refine congrArg Value.object (Dict.ext fun key => ?_)
    rw [Option.elim_some, Value.fields, get?_merge, get?_merge]
    cases hget : incoming.get? key with
    | none => rfl
    | some inner => exact congrArg some (ih key inner hget _)

theorem merge_merge_self (root incoming : Fields) :
    (root.merge incoming).merge incoming = root.merge incoming :=
  Value.object.inj (mergeSlot_mergeSlot_self (some (.object root)) (.object incoming))

end Fields

namespace Json

def isObject : Json → Bool
  | .object _ => true
  | _ => false

def isFilled : Json → Bool
  | .object fields => !fields.isEmpty
  | _ => false

def inside? (json : Json) : List String → Option Json
  | [] => some json
  | key :: path => (json.field? key).bind fun inner => inner.inside? path

theorem inside?_single (key first : String) (json : Json) (path : List String) :
    (Json.object (Dict.insert ∅ key json)).inside? (first :: path) =
      if first = key then json.inside? path else none := by
  rw [inside?, field?, Dict.get?_insert]
  split <;> rfl

end Json

namespace Value

theorem isObject_ofJson (json : Json) : (ofJson json).isObject = json.isObject := by
  cases json <;> rfl

theorem isFilled_ofJson (json : Json) : (ofJson json).isFilled = json.isFilled := by
  cases json with
  | object fields => cases fields <;> rfl
  | _ => rfl

/-- Paths of keys lead in the value of a piece of JSON where they lead in the JSON. -/
theorem at?_ofJson (json : Json) (path : List String) :
    (ofJson json).at? path = (json.inside? path).map ofJson := by
  induction path generalizing json with
  | nil => rfl
  | cons key path ih =>
    cases json with
    | object fields =>
      rw [ofJson, at?, get?_ofJsonFields, Json.inside?, Json.field?]
      cases fields.get? key with
      | none => rfl
      | some inner => exact ih inner
    | _ => rfl

end Value

namespace Evaluation

/-- Mixins change the user attributes only. There, whatever a path of keys leads to in the mixins is
read back, unless it is an object; what a path led to before is still there, if it is no object and
no path to a value or to an empty object in the mixins lies above or below. Mixed in once more, they
change nothing, and neither do mixins that are no object. -/
theorem withUserMixins_laws (e : Evaluation) :
    (∀ fields : Dict Json,
      let mixed := e.withUserMixins (.object fields)
      mixed = { e with user := mixed.user } ∧
      (∀ path json, (Json.object fields).inside? path = some json → json.isObject = false →
        mixed.user.at? path = some (.ofJson json)) ∧
      (∀ path value, e.user.at? path = some value → value.isObject = false →
        (∀ leaf json, (Json.object fields).inside? leaf = some json → json.isFilled = false →
          leaf ≠ [] → ¬leaf <+: path ∧ ¬path <+: leaf) →
        mixed.user.at? path = some value) ∧
      mixed.withUserMixins (.object fields) = mixed) ∧
    ∀ mixins : Json, mixins.isObject = false → e.withUserMixins mixins = e := by
  refine ⟨fun fields => ⟨rfl, ?_, ?_, ?_⟩, ?_⟩
  · intro path json hinside hjson
    have hat : Fields.at? (Value.ofJsonFields fields) path = some (.ofJson json) := by
      refine (Value.at?_ofJson (.object fields) path).trans ?_
      rw [hinside]
      rfl
    exact Fields.at?_merge_of_at? hat (by rw [Value.isObject_ofJson, hjson])
  · intro path value hat hvalue hapart
    refine Fields.at?_merge_of_apart hat hvalue fun key leaf inner hleaf hinner => ?_
    obtain ⟨json, hinside, rfl⟩ :=
      Option.map_eq_some_iff.mp ((Value.at?_ofJson (.object fields) (key :: leaf)).symm.trans hleaf)
    exact hapart (key :: leaf) json hinside (by rw [← Value.isFilled_ofJson, hinner])
      (List.cons_ne_nil key leaf)
  · exact congrArg (fun user => { e with user })
      (Fields.merge_merge_self e.user (Value.ofJsonFields fields))
  · intro mixins hmixins
    cases mixins with
    | object fields => cases hmixins
    | _ => rfl

def firstNamed : Evaluation :=
  { user := Dict.insert ∅ "name" (.object (Dict.insert ∅ "first" (.string "John"))) }

def lastName : Dict Json := Dict.insert ∅ "name" (.object (Dict.insert ∅ "last" (.string "Doe")))

theorem eq_of_inside?_lastName {leaf : List String} {json : Json}
    (h : (Json.object lastName).inside? leaf = some json) (hjson : json.isFilled = false) :
    leaf = ["name", "last"] := by
  match leaf with
  | [] =>
    obtain rfl := Option.some.inj h
    cases hjson
  | [key] =>
    rw [lastName, Json.inside?_single] at h
    obtain ⟨-, h⟩ := (Option.ite_none_right_eq_some).mp h
    obtain rfl := Option.some.inj h
    cases hjson
  | key :: next :: rest =>
    simp only [lastName, Json.inside?_single, Option.ite_none_right_eq_some] at h
    obtain ⟨rfl, rfl, h⟩ := h
    cases rest with
    | nil => rfl
    | cons further rest => cases h

theorem withUserMixins_laws_lastName :
    (firstNamed.withUserMixins (.object lastName)).user.at? ["name", "last"] =
      some (.string "Doe") ∧
    (firstNamed.withUserMixins (.object lastName)).user.at? ["name", "first"] =
      some (.string "John") := by
  obtain ⟨-, hread, hkept, -⟩ := (withUserMixins_laws firstNamed).1 lastName
  refine ⟨hread ["name", "last"] (.string "Doe") rfl rfl, ?_⟩
  refine hkept ["name", "first"] (.string "John") rfl rfl fun leaf json h hjson _ => ?_
  rw [eq_of_inside?_lastName h hjson]
  decide

end Evaluation

end Abac
