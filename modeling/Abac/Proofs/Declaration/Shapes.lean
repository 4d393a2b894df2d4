import Abac.Proofs.Declaration.Serialization
import Abac.Proofs.Traversal

/-!
The two shapes of a declaration. An object describes a leaf by its effect, with rules or without
any, or a group by an expression and members that are described in turn, and it holds nothing that
belongs to the other shape (`Describes`). A field with `null` in it counts as absent, and names that
are no field play no part. Where objects stand at the places of declarations, exactly what describes
a declaration is read, as this declaration, and all else is refused (`ofJson_iff_describes`).
-/
namespace Abac.Declaration

/-- A field is left out, or has `null` in it. -/
def Absent (entries : Entries Json none) (field : Field) : Prop :=
  ∀ value, entries.get? field.name = some value → value = .null

/-- An effect is stated by its name, or by an object with the name as its only key and `null` under
it. -/
def StatesEffect (value : Json) (effect : Effect) : Prop :=
  value = .string effect.name ∨ value = .ofPairs [(effect.name, .null)]

/-- A field lists rules by an array of texts, or lists none by being absent. -/
def ListsRules (entries : Entries Json none) (field : Field) (rules : List String) : Prop :=
  entries.get? field.name = some (.strings rules) ∨ Absent entries field ∧ rules = []

inductive Describes : Json → Declaration → Prop where
  | leaf {entries : Entries Json none} {value : Json} {effect : Effect}
      {target condition : List String}
      (heffect : entries.get? Field.effect.name = some value) (hvalue : StatesEffect value effect)
      (htarget : ListsRules entries .target target)
      (hcondition : ListsRules entries .condition condition)
      (hexpression : Absent entries .expression) (hpolicies : Absent entries .policies) :
      Describes (.object entries) (.leaf ⟨effect, target, condition⟩)
  | group {entries members : Entries Json none} {expression : String}
      {policies : Entries Declaration none}
      (hexpression : entries.get? Field.expression.name = some (.string expression))
      (hpolicies : entries.get? Field.policies.name = some (.object members))
      (hnonempty : members.isEmpty = false)
      (hnames : ∀ name, policies.contains name = members.contains name)
      (hmembers : ∀ name value policy, members.get? name = some value →
        policies.get? name = some policy → Describes value policy)
      (heffect : Absent entries .effect) (htarget : Absent entries .target)
      (hcondition : Absent entries .condition) :
      Describes (.object entries) (.group expression policies)

/-- Objects stand at the places of declarations: outside, and under the names of the members of a
group. -/
inductive ObjectsWithin : Json → Prop where
  | object {entries : Entries Json none}
      (h : ∀ members, entries.get? Field.policies.name = some (.object members) →
        ∀ name value, members.get? name = some value → ObjectsWithin value) :
      ObjectsWithin (.object entries)

/-! ## Members -/

theorem membersOfJson_eq_traverse {low : Option String} (members : Entries Json low) :
    membersOfJson members = members.traverse ofJson := by
  induction members with
  | nil => rfl
  | cons name above value rest ih => rw [membersOfJson, Entries.traverse, ih]

theorem membersOfJson_eq_ok_iff {members : Entries Json none} {policies : Entries Declaration none} :
    membersOfJson members = .ok policies ↔
      (∀ name, policies.contains name = members.contains name) ∧
        ∀ name value policy, members.get? name = some value → policies.get? name = some policy →
          ofJson value = .ok policy := by
  rw [membersOfJson_eq_traverse, Entries.traverse_eq_ok_iff, ← forall_and]
  refine forall_congr' fun name => ?_
  rw [Entries.contains, Entries.contains]
  cases members.get? name <;> cases policies.get? name <;> simp

/-! ## Fields -/

section Fields

variable {entries : Entries Json none} {field : Field}

theorem absent_iff : Absent entries field ↔ (entries.get? field.name).getD .null = .null := by
  rw [Absent]
  cases entries.get? field.name <;> simp

/-- A value other than `null` is read from a field just when the field has it. -/
theorem getD_null_eq_iff {value : Json} (hvalue : value ≠ .null) :
    (entries.get? field.name).getD .null = value ↔ entries.get? field.name = some value := by
  cases entries.get? field.name with
  | none => simpa using hvalue.symm
  | some found => simp

end Fields

theorem effectNamed_eq_ok_iff {name : String} {effect : Effect} :
    effectNamed name = .ok effect ↔ name = effect.name := by
  rw [effectNamed]
  constructor
  · intro h
    cases hname : Effect.ofName? name with
    | none => simp [hname] at h
    | some found =>
      obtain rfl : found = effect := by simpa [hname] using h
      simpa [eq_comm] using List.find?_some hname
  · rintro rfl
    cases effect <;> rfl

theorem cons_eq_ofPairs_iff {name other : String} {above : Above none name} {value stated : Json}
    {rest : Entries Json (some name)} :
    Json.object (.cons name above value rest) = .ofPairs [(other, stated)] ↔
      name = other ∧ value = stated ∧ rest = .nil := by
  constructor
  · intro h
    cases h
    exact ⟨rfl, rfl, rfl⟩
  · rintro ⟨rfl, rfl, rfl⟩
    rfl

/-- An effect is read from what states it, and no effect from `null`. -/
theorem effectOfJson_eq_ok_iff {value : Json} {content : Option Effect} :
    effectOfJson value = .ok content ↔
      value = .null ∧ content = none ∨ ∃ effect, StatesEffect value effect ∧ content = some effect := by
  have hother {error : Fault} (hnull : value ≠ .null)
      (hstates : ∀ effect, ¬StatesEffect value effect) :
      (.error error : Except Fault (Option Effect)) = .ok content ↔
        value = .null ∧ content = none ∨
          ∃ effect, StatesEffect value effect ∧ content = some effect := by
    simp [hnull, hstates]
  cases value with
  | null => simp [effectOfJson, StatesEffect, Json.ofPairs, eq_comm]
  | string name =>
    have hread : (effectNamed name).map some = .ok content ↔
        ∃ effect, effectNamed name = .ok effect ∧ content = some effect := by
      cases effectNamed name <;> simp [Except.map, eq_comm]
    simp [effectOfJson, hread, effectNamed_eq_ok_iff, StatesEffect, Json.ofPairs]
  | object entries =>
    cases entries with
    | nil =>
      refine hother (by simp) fun effect => ?_
      rintro (h | h) <;> cases h
    | cons name above stated rest =>
      cases rest with
      | nil =>
        rw [effectOfJson, bind_eq_ok_iff]
        simp only [effectNamed_eq_ok_iff, StatesEffect, cons_eq_ofPairs_iff]
        cases stated <;> simp [pure, Except.pure, eq_comm]
      | cons => exact hother (by simp) (by simp [StatesEffect, cons_eq_ofPairs_iff])
  | bool | number | array => exact hother (by simp) (by simp [StatesEffect, Json.ofPairs])

theorem stringOfJson_eq_ok_iff {value : Json} {text : String} :
    stringOfJson value = .ok text ↔ value = .string text := by
  cases value <;> simp [stringOfJson]

theorem mapM_stringOfJson_eq_ok_iff_map {values : List Json} {texts : List String} :
    values.mapM stringOfJson = .ok texts ↔ values = texts.map .string := by
  constructor
  · intro h
    induction values generalizing texts with
    | nil =>
      obtain rfl := Except.ok.inj h
      rfl
    | cons value rest ih =>
      rw [List.mapM_cons] at h
      obtain ⟨text, htext, h⟩ := bind_eq_ok_iff.mp h
      obtain ⟨later, hlater, h⟩ := bind_eq_ok_iff.mp h
      obtain rfl := Except.ok.inj h
      rw [List.map_cons, ← ih hlater, stringOfJson_eq_ok_iff.mp htext]
  · rintro rfl
    exact mapM_stringOfJson texts

theorem rulesOfJson_eq_ok_iff {value : Json} {content : Option (List String)} :
    rulesOfJson value = .ok content ↔
      value = .null ∧ content = none ∨ ∃ rules, value = .strings rules ∧ content = some rules := by
  cases value with
  | array items =>
    have hread : (items.mapM stringOfJson).map some = .ok content ↔
        ∃ rules, items.mapM stringOfJson = .ok rules ∧ content = some rules := by
      cases items.mapM stringOfJson <;> simp [Except.map, eq_comm]
    simp [rulesOfJson, hread, mapM_stringOfJson_eq_ok_iff_map, Json.strings]
  | _ => simp [rulesOfJson, Json.strings, eq_comm]

theorem expressionOfJson_eq_ok_iff {value : Json} {content : Option String} :
    expressionOfJson value = .ok content ↔
      value = .null ∧ content = none ∨ ∃ text, value = .string text ∧ content = some text := by
  cases value <;> simp [expressionOfJson, stringOfJson, Except.map, eq_comm]

theorem policiesOfJson_eq_ok_iff {value : Json} {content : Option (Entries Declaration none)} :
    policiesOfJson value = .ok content ↔
      value = .null ∧ content = none ∨ ∃ policies, (∃ members, value = .object members ∧
        membersOfJson members = .ok policies) ∧ content = some policies := by
  cases value with
  | object members =>
    cases hmembers : membersOfJson members <;>
      simp [policiesOfJson, Except.map, hmembers, eq_comm]
  | _ => simp [policiesOfJson, eq_comm]

/-! ## Whole objects -/

namespace Draft

variable {draft : Draft}

theorem finish_eq_leaf_iff {content : LeafDeclaration} :
    draft.finish = .ok (.leaf content) ↔
      draft.expression = none ∧ draft.policies = none ∧ draft.effect = some content.effect ∧
        draft.target.getD [] = content.target ∧ draft.condition.getD [] = content.condition := by
  constructor
  · intro h
    unfold finish at h
    split at h
    · split at h
      · cases h
      · split at h
        · cases h
        · cases h
        · split at h <;> cases h
    · next hleaf =>
      simp only [not_or, Option.not_isSome_iff_eq_none] at hleaf
      split at h
      · cases h
      · next effect heffect =>
        cases h
        exact ⟨hleaf.1, hleaf.2, heffect, rfl, rfl⟩
  · rintro ⟨hexpression, hpolicies, heffect, htarget, hcondition⟩
    simp [finish, hexpression, hpolicies, heffect, htarget, hcondition]

theorem finish_eq_group_iff {expression : String} {policies : Entries Declaration none} :
    draft.finish = .ok (.group expression policies) ↔
      draft.expression = some expression ∧ draft.policies = some policies ∧
        policies.isEmpty = false ∧ draft.effect = none ∧ draft.target = none ∧
        draft.condition = none := by
  constructor
  · intro h
    unfold finish at h
    split at h
    · split at h
      · cases h
      · next hgroup =>
        simp only [not_or, Option.not_isSome_iff_eq_none] at hgroup
        split at h
        · cases h
        · cases h
        · next hexpression hpolicies =>
          split at h
          · cases h
          · next hnonempty =>
            cases h
            exact ⟨hexpression, hpolicies, by simpa using hnonempty, hgroup⟩
    · split at h <;> cases h
  · rintro ⟨hexpression, hpolicies, hnonempty, heffect, htarget, hcondition⟩
    simp [finish, hexpression, hpolicies, hnonempty, heffect, htarget, hcondition]

end Draft

section Objects

variable {entries : Entries Json none}

/-- A field is absent just when its content is read as that of an empty draft. -/
theorem absent_iff_content {field : Field} :
    Absent entries field ↔
      field.contentOfJson ((entries.get? field.name).getD .null) = .ok (({} : Draft).get field) := by
  rw [absent_iff]
  cases field with
  | effect => simp [Field.contentOfJson, effectOfJson_eq_ok_iff, Draft.get]
  | target | condition => simp [Field.contentOfJson, rulesOfJson_eq_ok_iff, Draft.get]
  | expression => simp [Field.contentOfJson, expressionOfJson_eq_ok_iff, Draft.get]
  | policies => simp [Field.contentOfJson, policiesOfJson_eq_ok_iff, Draft.get]

theorem statesEffect_iff {effect : Effect} :
    (∃ value, entries.get? Field.effect.name = some value ∧ StatesEffect value effect) ↔
      effectOfJson ((entries.get? Field.effect.name).getD .null) = .ok (some effect) := by
  have hnull : ¬StatesEffect .null effect := by simp [StatesEffect, Json.ofPairs]
  rw [effectOfJson_eq_ok_iff]
  cases entries.get? Field.effect.name <;> simp [hnull]

theorem listsRules_iff {field : Field} {rules : List String} :
    ListsRules entries field rules ↔ ∃ content,
      rulesOfJson ((entries.get? field.name).getD .null) = .ok content ∧ content.getD [] = rules := by
  have hstrings (rules : List String) : Json.strings rules ≠ .null := nofun
  simp only [rulesOfJson_eq_ok_iff, ListsRules, absent_iff, ← getD_null_eq_iff (hstrings rules)]
  constructor
  · rintro (hrules | ⟨hnull, rfl⟩)
    · exact ⟨some rules, .inr ⟨rules, hrules, rfl⟩, rfl⟩
    · exact ⟨none, .inl ⟨hnull, rfl⟩, rfl⟩
  · rintro ⟨content, ⟨hnull, rfl⟩ | ⟨found, hfound, rfl⟩, rfl⟩
    · exact .inr ⟨hnull, rfl⟩
    · exact .inl hfound

theorem statesExpression_iff {expression : String} :
    entries.get? Field.expression.name = some (.string expression) ↔
      expressionOfJson ((entries.get? Field.expression.name).getD .null) =
        .ok (some expression) := by
  rw [expressionOfJson_eq_ok_iff]
  cases entries.get? Field.expression.name <;> simp

theorem statesMembers_iff {policies : Entries Declaration none} :
    (∃ members, entries.get? Field.policies.name = some (.object members) ∧
        membersOfJson members = .ok policies) ↔
      policiesOfJson ((entries.get? Field.policies.name).getD .null) = .ok (some policies) := by
  rw [policiesOfJson_eq_ok_iff]
  cases entries.get? Field.policies.name <;> simp

/-- An object is read as a leaf by what it states of a leaf, and by nothing else. -/
theorem ofJson_eq_leaf_iff {content : LeafDeclaration} :
    ofJson (.object entries) = .ok (.leaf content) ↔
      (∃ value, entries.get? Field.effect.name = some value ∧ StatesEffect value content.effect) ∧
        ListsRules entries .target content.target ∧
        ListsRules entries .condition content.condition ∧
        Absent entries .expression ∧ Absent entries .policies := by
  rw [ofJson_object_eq_ok_iff, statesEffect_iff, listsRules_iff, listsRules_iff, absent_iff_content,
    absent_iff_content]
  constructor
  · rintro ⟨draft, hfinish, hread⟩
    obtain ⟨hexpression, hpolicies, heffect, htarget, hcondition⟩ :=
      Draft.finish_eq_leaf_iff.mp hfinish
    exact ⟨(hread .effect).trans (congrArg Except.ok heffect), ⟨_, hread .target, htarget⟩,
      ⟨_, hread .condition, hcondition⟩, (hread .expression).trans (congrArg Except.ok hexpression),
      (hread .policies).trans (congrArg Except.ok hpolicies)⟩
  · rintro ⟨heffect, ⟨target, htarget, hrules⟩, ⟨condition, hcondition, hconstraints⟩, hexpression,
      hpolicies⟩
    refine ⟨⟨some content.effect, target, condition, none, none⟩,
      Draft.finish_eq_leaf_iff.mpr ⟨rfl, rfl, rfl, hrules, hconstraints⟩, fun field => ?_⟩
    cases field with
    | effect => exact heffect
    | target => exact htarget
    | condition => exact hcondition
    | expression => exact hexpression
    | policies => exact hpolicies

/-- An object is read as a group by what it states of a group, and by nothing else. -/
theorem ofJson_eq_group_iff {expression : String} {policies : Entries Declaration none} :
    ofJson (.object entries) = .ok (.group expression policies) ↔
      entries.get? Field.expression.name = some (.string expression) ∧
        (∃ members, entries.get? Field.policies.name = some (.object members) ∧
          membersOfJson members = .ok policies) ∧
        policies.isEmpty = false ∧ Absent entries .effect ∧ Absent entries .target ∧
        Absent entries .condition := by
  rw [ofJson_object_eq_ok_iff, statesExpression_iff, statesMembers_iff, absent_iff_content,
    absent_iff_content, absent_iff_content]
  constructor
  · rintro ⟨draft, hfinish, hread⟩
    obtain ⟨hexpression, hpolicies, hnonempty, heffect, htarget, hcondition⟩ :=
      Draft.finish_eq_group_iff.mp hfinish
    exact ⟨(hread .expression).trans (congrArg Except.ok hexpression),
      (hread .policies).trans (congrArg Except.ok hpolicies), hnonempty,
      (hread .effect).trans (congrArg Except.ok heffect),
      (hread .target).trans (congrArg Except.ok htarget),
      (hread .condition).trans (congrArg Except.ok hcondition)⟩
  · rintro ⟨hexpression, hpolicies, hnonempty, heffect, htarget, hcondition⟩
    refine ⟨⟨none, none, none, some expression, some policies⟩,
      Draft.finish_eq_group_iff.mpr ⟨rfl, rfl, hnonempty, rfl, rfl, rfl⟩, fun field => ?_⟩
    cases field with
    | effect => exact heffect
    | target => exact htarget
    | condition => exact hcondition
    | expression => exact hexpression
    | policies => exact hpolicies

end Objects

/-- What describes a declaration is read as it. -/
theorem Describes.ofJson_eq {value : Json} {declaration : Declaration}
    (h : Describes value declaration) : ofJson value = .ok declaration := by
  induction h with
  | leaf heffect hvalue htarget hcondition hexpression hpolicies =>
    exact ofJson_eq_leaf_iff.mpr
      ⟨⟨_, heffect, hvalue⟩, htarget, hcondition, hexpression, hpolicies⟩
  | group hexpression hpolicies hnonempty hnames hmembers heffect htarget hcondition ih =>
    have hread := membersOfJson_eq_ok_iff.mpr ⟨hnames, ih⟩
    exact ofJson_eq_group_iff.mpr ⟨hexpression, ⟨_, hpolicies, hread⟩,
      (Entries.isEmpty_congr hnames).trans hnonempty, heffect, htarget, hcondition⟩

/-- What is read as a declaration describes it, if objects stand at the places of declarations. -/
theorem ObjectsWithin.describes {value : Json} (hvalue : ObjectsWithin value)
    {declaration : Declaration} (h : ofJson value = .ok declaration) :
    Describes value declaration := by
  induction hvalue generalizing declaration with
  | object hwithin ih =>
    cases declaration with
    | leaf content =>
      obtain ⟨⟨value, heffect, hvalue⟩, htarget, hcondition, hexpression, hpolicies⟩ :=
        ofJson_eq_leaf_iff.mp h
      exact .leaf heffect hvalue htarget hcondition hexpression hpolicies
    | group expression policies =>
      obtain ⟨hexpression, ⟨members, hpolicies, hread⟩, hnonempty, heffect, htarget, hcondition⟩ :=
        ofJson_eq_group_iff.mp h
      obtain ⟨hnames, hmembers⟩ := membersOfJson_eq_ok_iff.mp hread
      refine .group hexpression hpolicies ((Entries.isEmpty_congr hnames).symm.trans hnonempty)
        hnames ?_ heffect htarget hcondition
      intro name value policy hvalue hpolicy
      exact ih members hpolicies name value hvalue (hmembers name value policy hvalue hpolicy)

/-- Where objects stand at the places of declarations, a value is read as a declaration just when it
describes it, in one of the two shapes, and a value that describes none is refused. -/
theorem ofJson_iff_describes (value : Json) (hvalue : ObjectsWithin value) :
    (∀ declaration, ofJson value = .ok declaration ↔ Describes value declaration) ∧
      ((∃ fault, ofJson value = .error fault) ↔ ∀ declaration, ¬Describes value declaration) := by
  have hok (declaration : Declaration) :
      ofJson value = .ok declaration ↔ Describes value declaration :=
    ⟨hvalue.describes, Describes.ofJson_eq⟩
  refine ⟨hok, ?_⟩
  simp only [← hok]
  cases ofJson value <;> simp

def staffOnly : Json :=
  .ofPairs [("effect", .null), ("expression", .string "staff"), ("note", .bool true),
    ("policies", .ofPairs [("staff",
      .ofPairs [("effect", .ofPairs [("deny", .null)]), ("target", .strings ["user.role='staff'"])])])]

def denyingGroup : Json :=
  .ofPairs [("effect", .string "deny"), ("expression", .string "staff"),
    ("policies", .ofPairs [("staff", .ofPairs [("effect", .string "permit")])])]

theorem ofJson_iff_describes_staffOnly :
    (ObjectsWithin staffOnly ∧
      Describes staffOnly
        (.group "staff" (Dict.insert ∅ "staff" (.leaf ⟨.deny, ["user.role='staff'"], []⟩)))) ∧
    ObjectsWithin denyingGroup ∧ ∀ declaration, ¬Describes denyingGroup declaration := by
  have hgroup {entries : Entries Json none} {name : String} {leaf : Entries Json none}
      (hpolicies : entries.get? Field.policies.name = some (.ofPairs [(name, .object leaf)]))
      (hleaf : leaf.get? Field.policies.name = none) : ObjectsWithin (.object entries) := by
    refine .object fun members hmembers other value hvalue => ?_
    obtain rfl := Json.object.inj (Option.some.inj (hpolicies.symm.trans hmembers))
    rw [Dict.get?_ofList, List.reverse_singleton, Dict.lookup_singleton] at hvalue
    split at hvalue
    · cases hvalue
      exact .object fun nested hnested => nomatch hleaf.symm.trans hnested
    · cases hvalue
  have hstaff : ObjectsWithin staffOnly := hgroup rfl rfl
  have hdenying : ObjectsWithin denyingGroup := hgroup rfl rfl
  exact ⟨⟨hstaff, ((ofJson_iff_describes staffOnly hstaff).1 _).mp rfl⟩,
    hdenying, (ofJson_iff_describes denyingGroup hdenying).2.mp ⟨.mixedFields, rfl⟩⟩

end Abac.Declaration
