import Abac.Declaration.OfJson
import Abac.Proofs.Dict

/-!
Drafts of declarations field by field. Each field has a content of its own type, and reading a field
replaces the content of that field only (`readField_eq`). So the draft that an object gives holds of
each field what was read from the value under its name, in whatever order the fields come
(`draftOfFields_eq_ok_iff`), and a field that is left out counts like one with `null` in it
(`ofJson_object_eq_ok_iff`). Entries that name no field play no part (`ofJson_erase`).
-/
namespace Abac.Declaration

theorem Field.ofName?_name (field : Field) : ofName? field.name = some field := by
  cases field <;> decide

theorem Field.name_of_ofName? {name : String} {field : Field} (h : ofName? name = some field) :
    field.name = name := by
  simpa using List.find?_some h

theorem Field.name_injective {field other : Field} (h : field.name = other.name) :
    field = other := by
  have hfound := field.ofName?_name
  rw [h, other.ofName?_name] at hfound
  exact (Option.some.inj hfound).symm

abbrev Field.Content : Field → Type
  | .effect => Option Effect
  | .target => Option (List String)
  | .condition => Option (List String)
  | .expression => Option String
  | .policies => Option (Entries Declaration none)

namespace Draft

def get (draft : Draft) : (field : Field) → field.Content
  | .effect => draft.effect
  | .target => draft.target
  | .condition => draft.condition
  | .expression => draft.expression
  | .policies => draft.policies

def set (draft : Draft) : (field : Field) → field.Content → Draft
  | .effect, content => { draft with effect := content }
  | .target, content => { draft with target := content }
  | .condition, content => { draft with condition := content }
  | .expression, content => { draft with expression := content }
  | .policies, content => { draft with policies := content }

@[simp] theorem get_set_self (draft : Draft) (field : Field) (content : field.Content) :
    (draft.set field content).get field = content := by
  cases field <;> rfl

theorem get_set_of_ne (draft : Draft) {field other : Field} (h : other ≠ field)
    (content : field.Content) : (draft.set field content).get other = draft.get other := by
  cases field <;> cases other <;> first | rfl | exact absurd rfl h

theorem ext {a b : Draft} (h : ∀ field, a.get field = b.get field) : a = b := by
  obtain ⟨effect, target, condition, expression, policies⟩ := a
  obtain rfl : effect = b.effect := h .effect
  obtain rfl : target = b.target := h .target
  obtain rfl : condition = b.condition := h .condition
  obtain rfl : expression = b.expression := h .expression
  obtain rfl : policies = b.policies := h .policies
  rfl

end Draft

def policiesOfJson : Json → Except Fault (Option (Entries Declaration none))
  | .null => .ok none
  | .object members => (membersOfJson members).map some
  | other => .error (.wrongType (.ofJson other) .map)

def Field.contentOfJson : (field : Field) → Json → Except Fault field.Content
  | .effect, value => effectOfJson value
  | .target, value => rulesOfJson value
  | .condition, value => rulesOfJson value
  | .expression, value => expressionOfJson value
  | .policies, value => policiesOfJson value

theorem readField_eq (draft : Draft) (field : Field) (value : Json) :
    readField draft field value = (field.contentOfJson value).map (draft.set field) := by
  cases field with
  | policies =>
    cases value with
    | object members =>
      rw [readField, Field.contentOfJson, policiesOfJson]
      cases membersOfJson members <;> rfl
    | _ => rfl
  | effect =>
    rw [readField, Field.contentOfJson]
    cases effectOfJson value <;> rfl
  | target =>
    rw [readField, Field.contentOfJson]
    cases rulesOfJson value <;> rfl
  | condition =>
    rw [readField, Field.contentOfJson]
    cases rulesOfJson value <;> rfl
  | expression =>
    rw [readField, Field.contentOfJson]
    cases expressionOfJson value <;> rfl

theorem contentOfJson_null (field : Field) :
    field.contentOfJson .null = .ok (({} : Draft).get field) := by
  cases field <;> rfl

/-- Entries are read into a draft just when every field that they name is read from its own value
and every other field stays as it was. -/
theorem draftOfFields_eq_ok_iff {low : Option String} (entries : Entries Json low)
    (draft result : Draft) :
    draftOfFields draft entries = .ok result ↔
      ∀ field : Field, (entries.get? field.name).elim (.ok (draft.get field)) field.contentOfJson =
        .ok (result.get field) := by
  induction entries generalizing draft with
  | nil =>
    simp only [draftOfFields, Entries.get?, Option.elim_none, Except.ok.injEq]
    exact ⟨fun h field => congrArg (Draft.get · field) h, Draft.ext⟩
  | @cons low key above value rest ih =>
    rw [draftOfFields]
    split
    · next hkey =>
      rw [ih]
      refine forall_congr' fun field => ?_
      rw [Entries.get?, if_neg]
      rintro rfl
      rw [Field.ofName?_name] at hkey
      cases hkey
    · next known hkey =>
      obtain rfl := Field.name_of_ofName? hkey
      have hfirst : (Entries.cons known.name above value rest).get? known.name = some value := by
        rw [Entries.get?, if_pos rfl]
      rw [readField_eq]
      cases hcontent : known.contentOfJson value with
      | error fault =>
        constructor
        · intro h
          cases h
        · intro h
          have hknown := h known
          rw [hfirst, Option.elim_some, hcontent] at hknown
          cases hknown
      | ok content =>
        change draftOfFields (draft.set known content) rest = .ok result ↔ _
        rw [ih]
        refine forall_congr' fun field => ?_
        by_cases hfield : field = known
        · subst hfield
          rw [Entries.get?_eq_none_of_le (not_above_self _) rest, hfirst, Option.elim_none,
            Option.elim_some, hcontent, Draft.get_set_self]
        · have hname : field.name ≠ known.name := fun h => hfield (Field.name_injective h)
          rw [Entries.get?, if_neg hname, Draft.get_set_of_ne draft hfield]

/-- An object is a declaration just when each field can be read from the value under its name, or
from `null` if there is none, and the fields go together. -/
theorem ofJson_object_eq_ok_iff (entries : Entries Json none) (declaration : Declaration) :
    ofJson (.object entries) = .ok declaration ↔
      ∃ draft : Draft, draft.finish = .ok declaration ∧ ∀ field : Field,
        field.contentOfJson ((entries.get? field.name).getD .null) = .ok (draft.get field) := by
  have hfields (draft : Draft) : draftOfFields {} entries = .ok draft ↔ ∀ field : Field,
      field.contentOfJson ((entries.get? field.name).getD .null) = .ok (draft.get field) := by
    rw [draftOfFields_eq_ok_iff]
    refine forall_congr' fun field => ?_
    cases entries.get? field.name with
    | some value => rfl
    | none => rw [Option.getD_none, Option.elim_none, contentOfJson_null]
  rw [ofJson]
  constructor
  · intro h
    cases hdraft : draftOfFields {} entries with
    | error fault =>
      rw [hdraft] at h
      cases h
    | ok draft =>
      rw [hdraft] at h
      exact ⟨draft, h, (hfields draft).mp hdraft⟩
  · rintro ⟨draft, hfinish, hread⟩
    rw [(hfields draft).mpr hread]
    exact hfinish

theorem draftOfFields_lower {low bound : Option String}
    (h : ∀ key, Above low key → Above bound key) (draft : Draft) (entries : Entries Json low) :
    draftOfFields draft (entries.lower h) = draftOfFields draft entries := by
  cases entries <;> rfl

theorem draftOfFields_erase {low : Option String} {name : String}
    (hname : Field.ofName? name = none) (draft : Draft) (entries : Entries Json low) :
    draftOfFields draft (entries.erase name) = draftOfFields draft entries := by
  induction entries generalizing draft with
  | nil => rfl
  | cons key above value rest ih =>
    rw [Entries.erase]
    by_cases hkey : name = key
    · subst hkey
      rw [if_pos rfl, draftOfFields_lower, draftOfFields, hname]
    · rw [if_neg hkey, draftOfFields, draftOfFields]
      simp only [ih]

theorem ofJson_erase {name : String} (hname : Field.ofName? name = none)
    (entries : Entries Json none) :
    ofJson (.object (entries.erase name)) = ofJson (.object entries) := by
  rw [ofJson, ofJson, draftOfFields_erase hname]

end Abac.Declaration
