import Abac.Proofs.Declaration.Faithfulness
import Abac.Proofs.Declaration.Texts
import Abac.Proofs.Store.Registry

/-!
Policies from JSON text. `Policy.ofText` reads the declaration as the text goes, `Store.loadText`
makes a value of the whole text first. Where both give a policy it is the same one. The value is
made of more than the declaration needs, so it can be missing for a text that is a declaration, and
it holds less than the text says, so a text that repeats a field is taken when it is loaded and else
refused (`Store.loadText_agrees`).
-/
namespace Abac

open Json (Document Spells SpellsString Entry)
open Declaration (Faithful)

namespace Policy

theorem ofText_eq_ok_iff {text : String} {policy : Policy} :
    ofText text = .ok policy ↔
      ∃ declaration, Declaration.ofText text = .ok declaration ∧
        compile declaration = .ok policy := by
  rw [ofText]
  cases Declaration.ofText text with
  | ok declaration => simp
  | error fault => cases fault <;> simp

theorem ofJson_eq_ok_iff {value : Json} {policy : Policy} :
    ofJson value = .ok policy ↔
      ∃ declaration, Declaration.ofJson value = .ok declaration ∧
        compile declaration = .ok policy := by
  rw [ofJson]
  cases Declaration.ofJson value <;> simp

/-- Where a value is made of the text, the text is the policy that the value is, if the value keeps
what matters. -/
theorem ofText_iff_ofJson {doc : Document} {text : String} {value : Json} (htext : doc.OfText text)
    (hvalue : doc.DenotesWithin Json.nestingLimit value) (policy : Policy) :
    ofText text = .ok policy ↔ ofJson value = .ok policy ∧ Faithful doc := by
  have hdeclaration (declaration : Declaration) : Declaration.ofText text = .ok declaration ↔
      Declaration.ofJson value = .ok declaration ∧ Faithful doc := by
    rw [Declaration.ofText_eq_ok_iff, ← Declaration.declares_iff _ _ _ _ hvalue]
    constructor
    · rintro ⟨doc', htext', hdeclares⟩
      exact htext'.unique htext ▸ hdeclares
    · exact fun hdeclares => ⟨doc, htext, hdeclares⟩
  simp only [ofText_eq_ok_iff, ofJson_eq_ok_iff, hdeclaration]
  constructor
  · rintro ⟨declaration, ⟨hdeclaration, hfaithful⟩, hpolicy⟩
    exact ⟨⟨declaration, hdeclaration, hpolicy⟩, hfaithful⟩
  · rintro ⟨⟨declaration, hdeclaration, hpolicy⟩, hfaithful⟩
    exact ⟨declaration, ⟨hdeclaration, hfaithful⟩, hpolicy⟩

end Policy

namespace Store

theorem evaluate_insert (store : Store) (id : String) (policy : Policy) (ctx : Context) :
    (store.insert id policy).evaluate id ctx = .ok (policy.evaluate ctx) := by
  have hget : (store.insert id policy).get? id = some policy :=
    Dict.get?_insert_self store.policies id policy
  rw [evaluate, hget]

/-- Only texts of which a value can be made are loaded. -/
theorem exists_denotes_of_loadText {store : Store} {fresh text : String} {loaded : String × Store}
    (h : store.loadText fresh text = .ok loaded) :
    ∃ doc : Document, doc.OfText text ∧ ∃ value, doc.DenotesWithin Json.nestingLimit value := by
  rw [loadText] at h
  split at h
  · next value hvalue =>
    obtain ⟨doc, htext, hdenotes⟩ := Json.parse?_eq_some_iff.mp hvalue
    exact ⟨doc, htext, value, hdenotes⟩
  · cases h

/-- A text that names no identifier is stored under the given one. -/
theorem loadText_of_denotes (store : Store) {fresh text : String} {doc : Document} {value : Json}
    (htext : doc.OfText text) (hvalue : doc.DenotesWithin Json.nestingLimit value)
    (hid : "id" ∉ doc.names) :
    store.loadText fresh text =
      (Policy.ofJson value).map fun policy => (fresh, store.insert fresh policy) := by
  have hidentifier : Registry.identifier? fresh value = some fresh := by
    rw [Registry.identifier?, (Document.field?_eq_none_iff hvalue.2 "id").mpr hid]
  rw [loadText, Json.parse?_eq_some_iff.mpr ⟨doc, htext, hvalue⟩]
  exact loadJson_of_identifier store none hidentifier

/-- An effect, in the text of an object. -/
theorem entry_effect (effect : Effect) (rest : List Char) :
    Entry Spells ("\"effect\":\"".toList ++ (effect.name.toList ++ '"' :: rest))
      (some "effect", .string (some effect.name)) rest := by
  have hname : SpellsString ("\"effect\":\"".toList ++ (effect.name.toList ++ '"' :: rest))
      (some "effect") (':' :: '"' :: (effect.name.toList ++ '"' :: rest)) :=
    .of_plain "effect".toList rfl (by simp)
  have hvalue : SpellsString ('"' :: (effect.name.toList ++ '"' :: rest)) (some effect.name)
      rest := by
    cases effect with
    | permit => exact .of_plain "permit".toList rfl (by simp)
    | deny => exact .of_plain "deny".toList rfl (by simp)
  exact .intro hname rfl (.string hvalue)

/-- A text without an identifier that is a policy is loaded just when a value can be made of all of
it, and one that is loaded is a policy just when the value keeps what matters. It is stored under
the given identifier, and evaluates as the policy that the text is. -/
theorem loadText_agrees (store : Store) {fresh text : String}
    (hid : ∀ doc : Document, doc.OfText text → "id" ∉ doc.names) :
    (∀ policy, Policy.ofText text = .ok policy →
      ((∃ loaded, store.loadText fresh text = .ok loaded) ↔
        ∃ doc : Document, doc.OfText text ∧ ∃ value, doc.DenotesWithin Json.nestingLimit value)) ∧
    (∀ loaded, store.loadText fresh text = .ok loaded →
      ((∃ policy, Policy.ofText text = .ok policy) ↔
        ∃ doc : Document, doc.OfText text ∧ Faithful doc)) ∧
    ∀ policy loaded, Policy.ofText text = .ok policy → store.loadText fresh text = .ok loaded →
      loaded = (fresh, store.insert fresh policy) ∧
        ∀ ctx, loaded.2.evaluate loaded.1 ctx = .ok (policy.evaluate ctx) := by
  refine ⟨?_, ?_, ?_⟩
  · rintro policy hpolicy
    constructor
    · rintro ⟨loaded, hloaded⟩
      exact exists_denotes_of_loadText hloaded
    · rintro ⟨doc, htext, value, hvalue⟩
      obtain ⟨hjson, -⟩ := (Policy.ofText_iff_ofJson htext hvalue policy).mp hpolicy
      rw [store.loadText_of_denotes htext hvalue (hid doc htext), hjson]
      exact ⟨_, rfl⟩
  · intro loaded hloaded
    obtain ⟨doc, htext, value, hvalue⟩ := exists_denotes_of_loadText hloaded
    constructor
    · rintro ⟨policy, hpolicy⟩
      exact ⟨doc, htext, ((Policy.ofText_iff_ofJson htext hvalue policy).mp hpolicy).2⟩
    · rintro ⟨doc', htext', hfaithful⟩
      obtain rfl := htext'.unique htext
      rw [store.loadText_of_denotes htext hvalue (hid _ htext)] at hloaded
      cases hpolicy : Policy.ofJson value with
      | error e =>
        rw [hpolicy] at hloaded
        cases hloaded
      | ok policy =>
        exact ⟨policy, (Policy.ofText_iff_ofJson htext hvalue policy).mpr ⟨hpolicy, hfaithful⟩⟩
  · intro policy loaded hpolicy hloaded
    obtain ⟨doc, htext, value, hvalue⟩ := exists_denotes_of_loadText hloaded
    obtain ⟨hjson, -⟩ := (Policy.ofText_iff_ofJson htext hvalue policy).mp hpolicy
    rw [store.loadText_of_denotes htext hvalue (hid doc htext), hjson] at hloaded
    obtain rfl := Except.ok.inj hloaded
    exact ⟨rfl, store.evaluate_insert fresh policy⟩

/-- Where the only field is an effect, the text is a policy, and loaded as this policy. -/
theorem loadText_agrees_deny :
    (∀ doc : Document, doc.OfText "\x7b\"effect\":\"deny\"\x7d" → "id" ∉ doc.names) ∧
      Policy.ofText "\x7b\"effect\":\"deny\"\x7d" = .ok (.leaf ⟨.deny, [], []⟩) ∧
      ({} : Store).loadText "first" "\x7b\"effect\":\"deny\"\x7d" =
        .ok ("first", ({} : Store).insert "first" (.leaf ⟨.deny, [], []⟩)) := by
  have htext : (Document.object [(some "effect", .string (some "deny"))]).OfText
      "\x7b\"effect\":\"deny\"\x7d" :=
    ⟨[], .object rfl (.some (entry_effect .deny ['}']) (.done rfl)), rfl⟩
  have hvalue : (Document.object [(some "effect", .string (some "deny"))]).DenotesWithin
      Json.nestingLimit (.ofPairs [("effect", .string "deny")]) := ⟨by decide, rfl⟩
  have hid (doc : Document) (h : doc.OfText "\x7b\"effect\":\"deny\"\x7d") : "id" ∉ doc.names :=
    h.unique htext ▸ by decide
  have hfaithful : Faithful (.object [(some "effect", .string (some "deny"))]) := by
    refine .object (by decide) fun member hmember field hfield => ?_
    obtain rfl := List.mem_singleton.mp hmember
    obtain rfl : Declaration.Field.effect = field :=
      Declaration.Field.name_injective (Option.some.inj hfield)
    exact .effect fun _ hobject => nomatch hobject
  have hpolicy := (Policy.ofText_iff_ofJson htext hvalue (.leaf ⟨.deny, [], []⟩)).mpr
    ⟨by rfl, hfaithful⟩
  obtain ⟨hloads, -, hsame⟩ := loadText_agrees {} hid
  obtain ⟨loaded, hloaded⟩ := (hloads _ hpolicy).mpr ⟨_, htext, _, hvalue⟩
  exact ⟨hid, hpolicy, (hsame _ _ hpolicy hloaded).1 ▸ hloaded⟩

/-- A text that repeats the effect is loaded, with the last one, and is no policy. -/
theorem loadText_repeatedEffect :
    (∀ doc : Document, doc.OfText "\x7b\"effect\":\"deny\",\"effect\":\"permit\"\x7d" →
      "id" ∉ doc.names) ∧
    ({} : Store).loadText "first" "\x7b\"effect\":\"deny\",\"effect\":\"permit\"\x7d" =
      .ok ("first", ({} : Store).insert "first" (.leaf ⟨.permit, [], []⟩)) ∧
    ¬∃ policy,
      Policy.ofText "\x7b\"effect\":\"deny\",\"effect\":\"permit\"\x7d" = .ok policy := by
  have htext : (Document.object [(some "effect", .string (some "deny")),
      (some "effect", .string (some "permit"))]).OfText
        "\x7b\"effect\":\"deny\",\"effect\":\"permit\"\x7d" :=
    ⟨[], .object rfl (.some (entry_effect .deny ",\"effect\":\"permit\"\x7d".toList)
      (.more rfl (entry_effect .permit ['}']) (.done rfl))), rfl⟩
  have hvalue : (Document.object [(some "effect", .string (some "deny")),
      (some "effect", .string (some "permit"))]).DenotesWithin Json.nestingLimit
        (.ofPairs [("effect", .string "deny"), ("effect", .string "permit")]) := ⟨by decide, rfl⟩
  refine ⟨fun doc h => h.unique htext ▸ by decide, ?_, ?_⟩
  · rw [loadText_of_denotes {} htext hvalue (by decide)]
    rfl
  · rintro ⟨policy, hpolicy⟩
    obtain ⟨-, hfaithful⟩ := (Policy.ofText_iff_ofJson htext hvalue policy).mp hpolicy
    cases hfaithful with
    | object honce _ => exact absurd honce (by decide)

end Store

end Abac
