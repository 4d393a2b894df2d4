import Abac.Proofs.Declaration.Drafts

/-!
Declarations survive being written as JSON. What is left out when a declaration is written is what
an absent field counts as, so each declaration is read back as it was, to whatever depth it nests
groups. The one exception is a group without members, which can be declared but not read: a single
one anywhere inside makes the reading fail (`survives_serialization`).
-/
namespace Abac.Declaration

mutual

def parts : Declaration → List Declaration
  | .leaf content => [.leaf content]
  | .group expression policies => .group expression policies :: partsOfMembers policies

def partsOfMembers : {low : Option String} → Entries Declaration low → List Declaration
  | _, .nil => []
  | _, .cons _ _ policy rest => parts policy ++ partsOfMembers rest

end

def isEmptyGroup : Declaration → Bool
  | .leaf _ => false
  | .group _ policies => policies.isEmpty

theorem mapM_stringOfJson (texts : List String) :
    (texts.map Json.string).mapM stringOfJson = .ok texts := by
  induction texts with
  | nil => rfl
  | cons text rest ih =>
    rw [List.map_cons, List.mapM_cons, ih]
    rfl

theorem rulesOfJson_strings (texts : List String) :
    rulesOfJson (Json.strings texts) = .ok (some texts) := by
  rw [Json.strings, rulesOfJson, mapM_stringOfJson]
  rfl

theorem effectOfJson_name (effect : Effect) :
    effectOfJson (.string effect.name) = .ok (some effect) := by
  cases effect <;> rfl

def rulesOrNone (rules : List String) : Option (List String) :=
  if rules.isEmpty then none else some rules

theorem rulesOrNone_getD (rules : List String) : (rulesOrNone rules).getD [] = rules := by
  cases rules <;> rfl

theorem lookup_rulesField (name key : String) (rules : List String) :
    (rulesField name rules).reverse.lookup key =
      if key = name then (rulesOrNone rules).map Json.strings else none := by
  cases rules with
  | nil => simp [rulesField, rulesOrNone]
  | cons rule rules => by_cases h : key = name <;> simp [rulesField, rulesOrNone, h]

theorem rulesOfJson_rulesOrNone (rules : List String) :
    rulesOfJson (((rulesOrNone rules).map Json.strings).getD .null) = .ok (rulesOrNone rules) := by
  cases rules with
  | nil => rfl
  | cons rule rules => exact rulesOfJson_strings (rule :: rules)

theorem ofJson_leafJson (leaf : LeafDeclaration) : ofJson (leafJson leaf) = .ok (.leaf leaf) := by
  rw [leafJson, Json.ofPairs, ofJson_object_eq_ok_iff]
  refine ⟨⟨some leaf.effect, rulesOrNone leaf.target, rulesOrNone leaf.condition, none, none⟩, ?_,
    fun field => ?_⟩
  · simp [Draft.finish, rulesOrNone_getD]
  · rw [Dict.get?_ofList, List.reverse_cons, List.reverse_append, List.lookup_append,
      List.lookup_append, lookup_rulesField, lookup_rulesField, Dict.lookup_singleton]
    cases field with
    | effect => exact effectOfJson_name leaf.effect
    | target =>
      simpa [Field.name, Field.contentOfJson, Draft.get] using rulesOfJson_rulesOrNone leaf.target
    | condition =>
      simpa [Field.name, Field.contentOfJson, Draft.get] using rulesOfJson_rulesOrNone leaf.condition
    | expression => rfl
    | policies => rfl

theorem groupJson_eq (expression : String) (members : Entries Json none) :
    groupJson expression members =
      .object (.cons "expression" trivial (.string expression)
        (.cons "policies" (by decide) (.object members) .nil)) := by
  have h : ¬"policies" < "expression" := by decide
  simp [groupJson, Json.ofPairs, Dict.ofList, Dict.insert, Dict.empty, Entries.insertAbove, h]

/-- A group fails to be read when a member does, or when it has none. -/
theorem ofJson_groupJson (expression : String) (members : Entries Json none) :
    ofJson (groupJson expression members) =
      match membersOfJson members with
      | .ok policies =>
        if policies.isEmpty then .error .noPolicies else .ok (.group expression policies)
      | .error fault => .error fault := by
  have hexpression : Field.ofName? "expression" = some .expression := Field.expression.ofName?_name
  have hpolicies : Field.ofName? "policies" = some .policies := Field.policies.ofName?_name
  rw [groupJson_eq, ofJson]
  simp only [draftOfFields, hexpression, hpolicies, readField_eq, Field.contentOfJson, expressionOfJson,
    stringOfJson, policiesOfJson, Except.map]
  cases membersOfJson members <;> rfl

mutual

/-- A declaration is read back from its JSON unless a group in it has no members. -/
theorem ofJson_toJson (declaration : Declaration) :
    ofJson declaration.toJson =
      if declaration.parts.any isEmptyGroup then .error .noPolicies else .ok declaration := by
  match declaration with
  | .leaf content => exact ofJson_leafJson content
  | .group expression policies =>
    rw [toJson, ofJson_groupJson, membersOfJson_toJsonEntries policies, parts, List.any_cons,
      isEmptyGroup]
    by_cases hparts : (partsOfMembers policies).any isEmptyGroup = true
    · rw [if_pos hparts, hparts, Bool.or_true]
      rfl
    · rw [if_neg hparts, Bool.eq_false_iff.mpr hparts, Bool.or_false]

theorem membersOfJson_toJsonEntries {low : Option String} (policies : Entries Declaration low) :
    membersOfJson (toJsonEntries policies) =
      if (partsOfMembers policies).any isEmptyGroup then .error .noPolicies else .ok policies := by
  match policies with
  | .nil => rfl
  | .cons name above policy rest =>
    rw [toJsonEntries, membersOfJson, ofJson_toJson policy, membersOfJson_toJsonEntries rest,
      partsOfMembers, List.any_append]
    cases policy.parts.any isEmptyGroup with
    | true => rfl
    | false => cases (partsOfMembers rest).any isEmptyGroup <;> rfl

end

/-- A declaration is read back from its JSON as it was just when every group in it, at every level,
has a member; otherwise it is refused for a group that has none. -/
theorem survives_serialization (declaration : Declaration) :
    (ofJson declaration.toJson = .ok declaration ↔
      ∀ part ∈ declaration.parts, part.isEmptyGroup = false) ∧
    (ofJson declaration.toJson = .error .noPolicies ↔
      ∃ part ∈ declaration.parts, part.isEmptyGroup = true) := by
  rw [ofJson_toJson, ← List.any_eq_true]
  cases hempty : declaration.parts.any isEmptyGroup with
  | true =>
    obtain ⟨part, hpart, hgroup⟩ := List.any_eq_true.mp hempty
    have hnot : ¬∀ part ∈ declaration.parts, part.isEmptyGroup = false := by
      intro h
      rw [h part hpart] at hgroup
      cases hgroup
    simp [hnot]
  | false =>
    simpa using List.any_eq_false.mp hempty

end Abac.Declaration
