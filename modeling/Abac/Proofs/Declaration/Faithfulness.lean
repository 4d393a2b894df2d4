import Abac.Proofs.Declaration.Documents

/-!
Declarations that are read from a document, and from the value that it denotes. A value holds the
last of several members with one name only, so more documents denote a declaration than are one.
The two ways agree on documents of which the value keeps everything that matters (`declares_iff`).
-/
namespace Abac.Declaration

open Json (Document)
open Json.Document (DenotesWithin MemberWithin)

def fieldsNamed (members : List (Option String × Document)) : List Field :=
  members.filterMap fun member => member.1.bind Field.ofName?

def IsDeclaration (doc : Document) : Prop :=
  ∃ value declaration, doc.toJson? = some value ∧ ofJson value = .ok declaration

mutual

/-- The value of a document keeps what matters for a declaration: an object names no field twice,
and the same holds of what stands under its fields. -/
inductive Faithful : Document → Prop
  | object {members : List (Option String × Document)} (honce : (fieldsNamed members).Nodup)
      (hparts : ∀ member ∈ members, ∀ field : Field, member.1 = some field.name →
        FaithfulUnder field member.2) : Faithful (.object members)
  | array {items : List Document}
      (hparts : ∀ pair ∈ Field.all.zip items, FaithfulUnder pair.1 pair.2) : Faithful (.array items)

/-- An effect in its object form is a single member, and the members of a group are declarations of
which their values keep what matters, also those that a later member with the same name replaces. -/
inductive FaithfulUnder : Field → Document → Prop
  | effect {doc : Document} (hsingle : ∀ members, doc = .object members → members.length = 1) :
      FaithfulUnder .effect doc
  | target {doc : Document} : FaithfulUnder .target doc
  | condition {doc : Document} : FaithfulUnder .condition doc
  | expression {doc : Document} : FaithfulUnder .expression doc
  | policies {doc : Document}
      (hdeclare : ∀ members, doc = .object members → ∀ member ∈ members, IsDeclaration member.2)
      (hmembers : ∀ members, doc = .object members → ∀ member ∈ members, Faithful member.2) :
      FaithfulUnder .policies doc

end

/-! ## Members of groups -/

theorem membersOfJson_cons_eq_ok_iff {low : Option String} {name : String} {above : Above low name}
    {value : Json} {rest : Entries Json (some name)} {result : Entries Declaration low} :
    membersOfJson (.cons name above value rest) = .ok result ↔ ∃ policy policies,
      ofJson value = .ok policy ∧ membersOfJson rest = .ok policies ∧
        result = .cons name above policy policies := by
  rw [membersOfJson]
  cases ofJson value with
  | error fault => simp [bind, Except.bind]
  | ok policy =>
    cases membersOfJson rest with
    | error fault => simp [bind, Except.bind]
    | ok policies => simp [bind, Except.bind, pure, Except.pure, eq_comm]

theorem membersOfJson_insertAbove {low : Option String} {key : String} {value : Json}
    {policy : Declaration} (hvalue : ofJson value = .ok policy) (hkey : Above low key)
    {entries : Entries Json low} {policies : Entries Declaration low}
    (h : membersOfJson entries = .ok policies) :
    membersOfJson (entries.insertAbove key value hkey) =
      .ok (policies.insertAbove key policy hkey) := by
  induction entries with
  | nil =>
    obtain rfl := Except.ok.inj h
    exact membersOfJson_cons_eq_ok_iff.mpr ⟨policy, .nil, hvalue, rfl, rfl⟩
  | cons name above old rest ih =>
    obtain ⟨oldPolicy, others, hold, hrest, rfl⟩ := membersOfJson_cons_eq_ok_iff.mp h
    rw [Entries.insertAbove, Entries.insertAbove]
    split
    · refine membersOfJson_cons_eq_ok_iff.mpr ⟨policy, _, hvalue, ?_, rfl⟩
      exact membersOfJson_cons_eq_ok_iff.mpr ⟨_, _, hold, hrest, rfl⟩
    · split
      · exact membersOfJson_cons_eq_ok_iff.mpr ⟨policy, _, hvalue, hrest, rfl⟩
      · exact membersOfJson_cons_eq_ok_iff.mpr ⟨_, _, hold, ih _ hrest, rfl⟩

def MemberOfJson (pair : String × Json) (policy : String × Declaration) : Prop :=
  pair.1 = policy.1 ∧ ofJson pair.2 = .ok policy.2

/-- Members of a group that are declarations one by one are a group. -/
theorem membersOfJson_ofList {pairs : List (String × Json)} {policies : List (String × Declaration)}
    (h : List.Forall₂ MemberOfJson pairs policies) :
    membersOfJson (Dict.ofList pairs) = .ok (Dict.ofList policies) := by
  have hfold {dict : Dict Json} {declared : Dict Declaration}
      (hdict : membersOfJson dict = .ok declared) :
      membersOfJson (pairs.foldl (fun dict pair => Dict.insert dict pair.1 pair.2) dict) =
        .ok (policies.foldl (fun dict pair => Dict.insert dict pair.1 pair.2) declared) := by
    induction h generalizing dict declared with
    | nil => exact hdict
    | @cons pair policy _ _ hpair _ ih =>
      obtain ⟨name, value⟩ := pair
      obtain ⟨rfl, hvalue⟩ := hpair
      exact ih (membersOfJson_insertAbove hvalue (show Above none _ from trivial) hdict)
  exact hfold (rfl : membersOfJson (∅ : Dict Json) = .ok ∅)

/-! ## Fields -/

theorem eq_null_iff {doc : Document} {value : Json} (h : doc.toJson? = some value) :
    doc = .null ↔ value = .null := by
  cases doc with
  | null =>
    obtain rfl := Option.some.inj h
    simp
  | bool b =>
    obtain rfl := Option.some.inj h
    simp
  | number parts | string content | array items | object members =>
    obtain ⟨_, -, rfl⟩ := Option.map_eq_some_iff.mp h
    simp [Json.ofPairs]

/-- An effect in its object form, as a value. -/
theorem effectOfJson_single_eq_ok_iff {name : String} {value : Json} {content : Option Effect} :
    effectOfJson (.ofPairs [(name, value)]) = .ok content ↔
      ∃ effect, content = some effect ∧ Effect.ofName? name = some effect ∧ value = .null := by
  cases value with
  | null =>
    change (effectNamed name).bind (fun effect => .ok (some effect)) = .ok content ↔ _
    cases hname : Effect.ofName? name <;> simp [effectNamed, hname, Except.bind, eq_comm]
  | _ =>
    change (effectNamed name).bind (fun _ => .error _) = .ok content ↔ _
    cases hname : Effect.ofName? name <;> simp [effectNamed, hname, Except.bind]

theorem means_effect_iff {levels : Nat} {doc : Document} {value : Json}
    (h : doc.DenotesWithin levels value) (content : Option Effect) :
    Nullable (MeansEffect (decide (0 < levels))) doc content ↔
      effectOfJson value = .ok content ∧ ∀ members, doc = .object members → members.length = 1 := by
  cases doc with
  | null =>
    obtain rfl := Option.some.inj h.2
    simp [Nullable, MeansEffect, effectOfJson, eq_comm]
  | bool b =>
    obtain rfl := Option.some.inj h.2
    simp [Nullable, MeansEffect, effectOfJson]
  | number parts =>
    obtain ⟨n, hn, rfl⟩ := Option.map_eq_some_iff.mp h.2
    simp [Nullable, MeansEffect, effectOfJson]
  | string text =>
    obtain ⟨name, rfl, rfl⟩ := Option.map_eq_some_iff.mp h.2
    cases hname : Effect.ofName? name <;>
      simp [Nullable, MeansEffect, effectOfJson, effectNamed, hname, Except.map, eq_comm]
  | array items =>
    obtain ⟨n, hn, rfl⟩ := Option.map_eq_some_iff.mp h.2
    simp [Nullable, MeansEffect, effectOfJson]
  | object members =>
    cases levels with
    | zero => exact absurd h Json.Document.not_denotesWithin_zero_object
    | succ below =>
      obtain ⟨pairs, hpairs, rfl⟩ := Json.Document.denotesWithin_object_iff.mp h
      cases hpairs with
      | nil => simp [Nullable, MeansEffect]
      | @cons member pair others otherPairs hmember hothers =>
        obtain ⟨name, doc⟩ := member
        obtain ⟨hname, -, hvalue⟩ := hmember
        obtain rfl : name = some pair.1 := hname
        cases hothers with
        | nil =>
          rw [effectOfJson_single_eq_ok_iff]
          simp [Nullable, MeansEffect, eq_null_iff hvalue]
        | cons hsecond hrest => simp [Nullable, MeansEffect]

theorem meansText_iff {doc : Document} {value : Json} (h : doc.toJson? = some value)
    (text : String) : MeansText doc text ↔ stringOfJson value = .ok text := by
  cases doc with
  | null | bool b =>
    obtain rfl := Option.some.inj h
    simp [MeansText, stringOfJson]
  | string content =>
    obtain ⟨name, rfl, rfl⟩ := Option.map_eq_some_iff.mp h
    simp [MeansText, stringOfJson]
  | number parts | array items | object members =>
    obtain ⟨_, -, rfl⟩ := Option.map_eq_some_iff.mp h
    simp [MeansText, stringOfJson, Json.ofPairs]

theorem means_expression_iff {levels : Nat} {doc : Document} {value : Json}
    (h : doc.DenotesWithin levels value) (content : Option String) :
    Nullable MeansText doc content ↔ expressionOfJson value = .ok content := by
  by_cases hnull : value = .null
  · obtain rfl := (eq_null_iff h.2).mpr hnull
    subst hnull
    simp [Nullable, MeansText, expressionOfJson, eq_comm]
  · have hdoc : doc ≠ .null := mt (eq_null_iff h.2).mp hnull
    have hread : expressionOfJson value = (stringOfJson value).map some := by
      cases value <;> first | rfl | exact absurd rfl hnull
    rw [hread, Nullable]
    simp only [hdoc, false_and, false_or, meansText_iff h.2]
    cases stringOfJson value <;> simp [Except.map, eq_comm]

theorem mapM_stringOfJson_eq_ok_iff {levels : Nat} {docs : List Document} {values : List Json}
    (h : List.Forall₂ (DenotesWithin levels) docs values) (texts : List String) :
    docs = texts.map (fun text => .string (some text)) ↔ values.mapM stringOfJson = .ok texts := by
  induction h generalizing texts with
  | nil => cases texts <;> simp [pure, Except.pure]
  | @cons doc value docs values hvalue _ ih =>
    rw [List.mapM_cons]
    cases texts with
    | nil =>
      refine iff_of_false (List.cons_ne_nil _ _) ?_
      cases stringOfJson value <;> cases values.mapM stringOfJson <;>
        simp [bind, Except.bind, pure, Except.pure]
    | cons text texts =>
      have hfirst : doc = .string (some text) ↔ _ := meansText_iff hvalue.2 text
      rw [List.map_cons, List.cons.injEq, ih, hfirst]
      cases stringOfJson value <;> cases values.mapM stringOfJson <;>
        simp [bind, Except.bind, pure, Except.pure]

theorem means_rules_iff {levels : Nat} {doc : Document} {value : Json}
    (h : doc.DenotesWithin levels value) (content : Option (List String)) :
    Nullable (MeansRules (decide (0 < levels))) doc content ↔ rulesOfJson value = .ok content := by
  cases doc with
  | null =>
    obtain rfl := Option.some.inj h.2
    simp [Nullable, MeansRules, rulesOfJson, eq_comm]
  | bool b =>
    obtain rfl := Option.some.inj h.2
    simp [Nullable, MeansRules, rulesOfJson]
  | number parts | string content =>
    obtain ⟨_, -, rfl⟩ := Option.map_eq_some_iff.mp h.2
    simp [Nullable, MeansRules, rulesOfJson]
  | object members =>
    obtain ⟨_, -, rfl⟩ := Option.map_eq_some_iff.mp h.2
    simp [Nullable, MeansRules, rulesOfJson, Json.ofPairs]
  | array items =>
    cases levels with
    | zero => exact absurd h Json.Document.not_denotesWithin_zero_array
    | succ below =>
      obtain ⟨values, hvalues, rfl⟩ := Json.Document.denotesWithin_array_iff.mp h
      simp [Nullable, MeansRules, rulesOfJson, mapM_stringOfJson_eq_ok_iff hvalues]
      cases values.mapM stringOfJson <;> simp [Except.map, eq_comm]

def AgreesWithin (levels : Nat) (declares : Document → Declaration → Prop) : Prop :=
  ∀ doc value declaration, doc.DenotesWithin levels value →
    (declares doc declaration ↔ ofJson value = .ok declaration ∧ Faithful doc)

section Members

variable {levels : Nat} {members : List (Option String × Document)} {pairs : List (String × Json)}
  (hpairs : List.Forall₂ (MemberWithin levels) members pairs)

include hpairs

theorem forall_isDeclaration_iff :
    (∀ member ∈ members, IsDeclaration member.2) ↔
      ∃ policies, List.Forall₂ MemberOfJson pairs policies := by
  induction hpairs with
  | nil => exact iff_of_true (fun _ hmem => absurd hmem List.not_mem_nil) ⟨[], .nil⟩
  | @cons member pair _ _ hmember _ ih =>
    obtain ⟨-, -, hvalue⟩ := hmember
    rw [List.forall_mem_cons, ih]
    constructor
    · rintro ⟨⟨value, declaration, hvalue', hdeclaration⟩, policies, hpolicies⟩
      obtain rfl := Option.some.inj (hvalue.symm.trans hvalue')
      exact ⟨(pair.1, declaration) :: policies, .cons ⟨rfl, hdeclaration⟩ hpolicies⟩
    · rintro ⟨policies, _ | ⟨⟨-, hdeclaration⟩, hpolicies⟩⟩
      exact ⟨⟨_, _, hvalue, hdeclaration⟩, _, hpolicies⟩

theorem forall₂_declares_iff {declares : Document → Declaration → Prop}
    (hdeclares : AgreesWithin levels declares) (policies : List (String × Declaration)) :
    List.Forall₂ (fun member policy => member.1 = some policy.1 ∧ declares member.2 policy.2)
      members policies ↔
    List.Forall₂ MemberOfJson pairs policies ∧ ∀ member ∈ members, Faithful member.2 := by
  induction hpairs generalizing policies with
  | nil => simp
  | @cons member pair _ _ hmember _ ih =>
    obtain ⟨hname, hvalue⟩ := hmember
    cases policies with
    | nil => simp
    | cons policy policies =>
      rw [List.forall₂_cons, List.forall₂_cons, List.forall_mem_cons, ih, hname,
        hdeclares _ _ _ hvalue, Option.some.injEq, MemberOfJson]
      tauto

end Members

theorem means_policies_iff {levels : Nat} {declares : Document → Declaration → Prop}
    (hdeclares : ∀ below, levels = below + 1 → AgreesWithin below declares) {doc : Document}
    {value : Json} (h : doc.DenotesWithin levels value)
    (content : Option (Entries Declaration none)) :
    Nullable (MeansMembers (decide (0 < levels)) declares) doc content ↔
      policiesOfJson value = .ok content ∧ ∀ members, doc = .object members →
        (∀ member ∈ members, IsDeclaration member.2) ∧ ∀ member ∈ members, Faithful member.2 := by
  cases doc with
  | null =>
    obtain rfl := Option.some.inj h.2
    simp [Nullable, MeansMembers, policiesOfJson, eq_comm]
  | bool b =>
    obtain rfl := Option.some.inj h.2
    simp [Nullable, MeansMembers, policiesOfJson]
  | number parts | string content | array items =>
    obtain ⟨_, -, rfl⟩ := Option.map_eq_some_iff.mp h.2
    simp [Nullable, MeansMembers, policiesOfJson]
  | object members =>
    cases levels with
    | zero => exact absurd h Json.Document.not_denotesWithin_zero_object
    | succ below =>
      obtain ⟨pairs, hpairs, rfl⟩ := Json.Document.denotesWithin_object_iff.mp h
      have hgroup (policies : Entries Declaration none) :
          MeansMembers true declares (.object members) policies ↔
            membersOfJson (Dict.ofList pairs) = .ok policies ∧
              (∀ member ∈ members, IsDeclaration member.2) ∧
                ∀ member ∈ members, Faithful member.2 := by
        constructor
        · rintro ⟨-, members', declared, hmembers', hdeclared, rfl⟩
          cases hmembers'
          obtain ⟨hdeclared, hfaithful⟩ :=
            (forall₂_declares_iff hpairs (hdeclares below rfl) declared).mp hdeclared
          exact ⟨membersOfJson_ofList hdeclared,
            (forall_isDeclaration_iff hpairs).mpr ⟨_, hdeclared⟩, hfaithful⟩
        · rintro ⟨hpolicies, hdeclare, hfaithful⟩
          obtain ⟨declared, hdeclared⟩ := (forall_isDeclaration_iff hpairs).mp hdeclare
          obtain rfl := Except.ok.inj (hpolicies.symm.trans (membersOfJson_ofList hdeclared))
          exact ⟨rfl, members, declared, rfl,
            (forall₂_declares_iff hpairs (hdeclares below rfl) declared).mpr
              ⟨hdeclared, hfaithful⟩, rfl⟩
      simp [Nullable, hgroup, policiesOfJson, Json.ofPairs]
      cases membersOfJson (Dict.ofList pairs) <;> simp [Except.map, eq_comm]

/-- A document has a content under a field just when its value has this content and keeps what
matters under this field. -/
theorem means_iff {levels : Nat} {declares : Document → Declaration → Prop}
    (hdeclares : ∀ below, levels = below + 1 → AgreesWithin below declares) {doc : Document}
    {value : Json} (h : doc.DenotesWithin levels value) (field : Field) (content : field.Content) :
    field.Means (decide (0 < levels)) declares doc content ↔
      field.contentOfJson value = .ok content ∧ FaithfulUnder field doc := by
  cases field with
  | effect =>
    refine (means_effect_iff h content).trans (and_congr_right' ⟨.effect, ?_⟩)
    rintro ⟨hsingle⟩
    exact hsingle
  | target =>
    exact (means_rules_iff h content).trans (and_iff_left .target).symm
  | condition =>
    exact (means_rules_iff h content).trans (and_iff_left .condition).symm
  | expression =>
    exact (means_expression_iff h content).trans (and_iff_left .expression).symm
  | policies =>
    refine (means_policies_iff hdeclares h content).trans (and_congr_right' ?_)
    constructor
    · exact fun hboth => .policies (fun members hdoc => (hboth members hdoc).1)
        fun members hdoc => (hboth members hdoc).2
    · intro h members hdoc
      cases h with
      | policies hdeclare hmembers => exact ⟨hdeclare members hdoc, hmembers members hdoc⟩

/-! ## Objects -/

def contentOfPairs (pairs : List (String × Json)) (draft : Draft) (field : Field) :
    Except Fault field.Content :=
  (pairs.reverse.lookup field.name).elim (.ok (draft.get field)) field.contentOfJson

theorem contentOfPairs_cons (pair : String × Json) (pairs : List (String × Json)) (draft : Draft)
    (field : Field) : contentOfPairs (pair :: pairs) draft field =
      ((pairs.reverse.lookup field.name).or
        (if field.name = pair.1 then some pair.2 else none)).elim
          (.ok (draft.get field)) field.contentOfJson := by
  rw [contentOfPairs, List.reverse_cons, List.lookup_append, Dict.lookup_singleton]

theorem contentOfPairs_cons_of_ne {pair : String × Json} {field : Field} (h : field.name ≠ pair.1)
    (pairs : List (String × Json)) (draft : Draft) :
    contentOfPairs (pair :: pairs) draft field = contentOfPairs pairs draft field := by
  rw [contentOfPairs_cons, if_neg h, Option.or_none, contentOfPairs]

theorem contentOfPairs_set_of_ne {field other : Field} (h : other ≠ field)
    (pairs : List (String × Json)) (draft : Draft) (content : field.Content) :
    contentOfPairs pairs (draft.set field content) other = contentOfPairs pairs draft other := by
  rw [contentOfPairs, contentOfPairs, Draft.get_set_of_ne draft h]

/-- A field that no other pair names is read from the first one. -/
theorem contentOfPairs_cons_iff {field : Field} {value : Json} {pairs : List (String × Json)}
    (honce : pairs.reverse.lookup field.name = none) (draft result : Draft) :
    (∀ other, contentOfPairs ((field.name, value) :: pairs) draft other = .ok (result.get other)) ↔
      ∃ content, field.contentOfJson value = .ok content ∧
        ∀ other, contentOfPairs pairs (draft.set field content) other = .ok (result.get other) := by
  have hfirst : contentOfPairs ((field.name, value) :: pairs) draft field =
      field.contentOfJson value := by
    rw [contentOfPairs_cons, honce, if_pos rfl, Option.none_or, Option.elim_some]
  have hset (content : field.Content) :
      contentOfPairs pairs (draft.set field content) field = .ok content := by
    rw [contentOfPairs, honce, Option.elim_none, Draft.get_set_self]
  have hname {other : Field} (h : other ≠ field) : other.name ≠ (field.name, value).1 :=
    fun hname => h (Field.name_injective hname)
  constructor
  · intro h
    refine ⟨result.get field, hfirst.symm.trans (h field), fun other => ?_⟩
    by_cases hother : other = field
    · subst hother
      exact hset _
    · rw [contentOfPairs_set_of_ne hother, ← h other, contentOfPairs_cons_of_ne (hname hother)]
  · rintro ⟨content, hcontent, h⟩ other
    by_cases hother : other = field
    · subst hother
      rw [hfirst, hcontent, ← h other, hset]
    · rw [contentOfPairs_cons_of_ne (hname hother), ← h other, contentOfPairs_set_of_ne hother]

theorem fieldsNamed_cons_known (field : Field) (doc : Document)
    (members : List (Option String × Document)) :
    fieldsNamed ((some field.name, doc) :: members) = field :: fieldsNamed members :=
  List.filterMap_cons_some field.ofName?_name

theorem fieldsNamed_cons_unknown {name : String} (h : Field.ofName? name = none) (doc : Document)
    (members : List (Option String × Document)) :
    fieldsNamed ((some name, doc) :: members) = fieldsNamed members :=
  List.filterMap_cons_none h

section Objects

variable {levels : Nat} {members : List (Option String × Document)} {pairs : List (String × Json)}
  (hpairs : List.Forall₂ (MemberWithin levels) members pairs)

include hpairs

theorem lookup_eq_none_of_not_mem_fieldsNamed {field : Field} (h : field ∉ fieldsNamed members) :
    pairs.reverse.lookup field.name = none := by
  induction hpairs with
  | nil => rfl
  | @cons member pair members _ hmember _ ih =>
    obtain ⟨name, doc⟩ := member
    obtain ⟨rfl, -⟩ := hmember
    have hne : field.name ≠ pair.1 := by
      intro hname
      rw [← hname, fieldsNamed_cons_known] at h
      exact h List.mem_cons_self
    have hrest : field ∉ fieldsNamed members := by
      intro hmem
      obtain ⟨member, hmember, hfield⟩ := List.mem_filterMap.mp hmem
      exact h (List.mem_filterMap.mpr ⟨member, List.mem_cons_of_mem _ hmember, hfield⟩)
    rw [List.reverse_cons, List.lookup_append, ih hrest, Dict.lookup_singleton, if_neg hne]
    rfl

end Objects

variable {means : (field : Field) → Document → field.Content → Prop}

theorem draftsMembers_nil_iff {draft result : Draft} {seen : List Field} :
    DraftsMembers means draft seen [] result ↔ draft = result := by
  constructor
  · rintro ⟨⟩
    rfl
  · rintro rfl
    exact .nil

theorem draftsMembers_cons_known_iff {draft result : Draft} {seen : List Field} {field : Field}
    {doc : Document} {members : List (Option String × Document)} :
    DraftsMembers means draft seen ((some field.name, doc) :: members) result ↔
      field ∉ seen ∧ ∃ content, means field doc content ∧
        DraftsMembers means (draft.set field content) (field :: seen) members result := by
  constructor
  · intro h
    generalize hmember : (some field.name, doc) = member at h
    cases h with
    | cons hfirst hrest =>
      cases hfirst with
      | known hseen hcontent =>
        obtain ⟨hname, rfl⟩ := Prod.mk.inj hmember
        obtain rfl := Field.name_injective (Option.some.inj hname)
        exact ⟨hseen, _, hcontent, hrest⟩
      | unknown hname =>
        obtain ⟨hname', rfl⟩ := Prod.mk.inj hmember
        rw [← Option.some.inj hname', Field.ofName?_name] at hname
        cases hname
  · rintro ⟨hseen, content, hcontent, hrest⟩
    exact .cons (.known hseen hcontent) hrest

theorem draftsMembers_cons_unknown_iff {draft result : Draft} {seen : List Field} {name : String}
    (hname : Field.ofName? name = none) {doc : Document}
    {members : List (Option String × Document)} :
    DraftsMembers means draft seen ((some name, doc) :: members) result ↔
      DraftsMembers means draft seen members result := by
  constructor
  · intro h
    generalize hmember : (some name, doc) = member at h
    cases h with
    | cons hfirst hrest =>
      cases hfirst with
      | known hseen hcontent =>
        obtain ⟨hname', rfl⟩ := Prod.mk.inj hmember
        rw [Option.some.inj hname', Field.ofName?_name] at hname
        cases hname
      | unknown => exact hrest
  · exact .cons (.unknown hname)

section Drafts

variable {levels : Nat} (hmeans : ∀ doc value, doc.DenotesWithin levels value →
  ∀ (field : Field) (content : field.Content),
    means field doc content ↔ field.contentOfJson value = .ok content ∧ FaithfulUnder field doc)

include hmeans

/-- Members are drafted one by one just when no field is named again, every field keeps what
matters, and each is read from the pairs of the value. -/
theorem draftsMembers_iff {members : List (Option String × Document)}
    {pairs : List (String × Json)} (hpairs : List.Forall₂ (MemberWithin levels) members pairs)
    (draft result : Draft) (seen : List Field) :
    DraftsMembers means draft seen members result ↔
      ((fieldsNamed members).Nodup ∧ ∀ field ∈ fieldsNamed members, field ∉ seen) ∧
        (∀ member ∈ members, ∀ field : Field, member.1 = some field.name →
          FaithfulUnder field member.2) ∧
        ∀ field, contentOfPairs pairs draft field = .ok (result.get field) := by
  induction hpairs generalizing draft seen with
  | nil =>
    have hresult : draft = result ↔ ∀ field, contentOfPairs [] draft field =
        .ok (result.get field) := by
      constructor
      · rintro rfl field
        rfl
      · exact fun h => Draft.ext fun field => Except.ok.inj (h field)
    rw [draftsMembers_nil_iff, hresult]
    simp [fieldsNamed]
  | @cons member pair members pairs hmember hpairs ih =>
    obtain ⟨name, doc⟩ := member
    obtain ⟨key, value⟩ := pair
    obtain ⟨rfl, hvalue⟩ := hmember
    rw [List.forall_mem_cons]
    cases hname : Field.ofName? key with
    | none =>
      have hunknown (field : Field) : field.name ≠ key := by
        rintro rfl
        rw [Field.ofName?_name] at hname
        cases hname
      have hhead : ∀ field : Field, some key = some field.name → FaithfulUnder field doc :=
        fun field h => absurd (Option.some.inj h).symm (hunknown field)
      rw [draftsMembers_cons_unknown_iff hname, ih, fieldsNamed_cons_unknown hname,
        and_iff_right hhead]
      have hrest (field : Field) : contentOfPairs ((key, value) :: pairs) draft field =
          contentOfPairs pairs draft field := contentOfPairs_cons_of_ne (hunknown field) pairs draft
      simp only [hrest]
    | some field =>
      obtain rfl := Field.name_of_ofName? hname
      have hhead : (∀ other : Field, some field.name = some other.name →
          FaithfulUnder other doc) ↔ FaithfulUnder field doc :=
        ⟨fun h => h field rfl, fun h other hother =>
          Field.name_injective (Option.some.inj hother) ▸ h⟩
      rw [draftsMembers_cons_known_iff, fieldsNamed_cons_known, List.nodup_cons, hhead,
        List.forall_mem_cons]
      simp only [ih, hmeans doc value hvalue, List.mem_cons, not_or]
      -- What is read here stays in the draft, since no member behind it names the field again.
      constructor
      · rintro ⟨hseen, content, ⟨hcontent, hfaithful⟩, ⟨hnodup, hnamed⟩, hparts, hresult⟩
        have honce : field ∉ fieldsNamed members := fun hmem => (hnamed field hmem).1 rfl
        refine ⟨⟨⟨honce, hnodup⟩, hseen, fun other hother => (hnamed other hother).2⟩,
          ⟨hfaithful, hparts⟩, ?_⟩
        exact (contentOfPairs_cons_iff (lookup_eq_none_of_not_mem_fieldsNamed hpairs honce) _ _).mpr
          ⟨content, hcontent, hresult⟩
      · rintro ⟨⟨⟨honce, hnodup⟩, hseen, hnamed⟩, ⟨hfaithful, hparts⟩, hresult⟩
        obtain ⟨content, hcontent, hresult⟩ := (contentOfPairs_cons_iff
          (lookup_eq_none_of_not_mem_fieldsNamed hpairs honce) _ _).mp hresult
        refine ⟨hseen, content, ⟨hcontent, hfaithful⟩, ⟨hnodup, fun other hother => ?_⟩, hparts,
          hresult⟩
        exact ⟨fun h => honce (h ▸ hother), hnamed other hother⟩

theorem draftsItems_iff {items : List Document} {values : List Json}
    (hvalues : List.Forall₂ (DenotesWithin levels) items values) (total : Nat)
    (draft result : Draft) (fields : List Field) :
    DraftsItems means draft fields items result ↔
      draftOfItems total draft fields values = .ok result ∧
        ∀ pair ∈ fields.zip items, FaithfulUnder pair.1 pair.2 := by
  induction hvalues generalizing draft fields with
  | nil =>
    rw [List.zip_nil_right, draftOfItems.eq_1, Except.ok.injEq]
    constructor
    · rintro ⟨⟩
      exact ⟨rfl, fun _ hmem => absurd hmem List.not_mem_nil⟩
    · rintro ⟨rfl, -⟩
      exact .nil
  | @cons doc value items values hvalue _ ih =>
    cases fields with
    | nil =>
      refine iff_of_false (fun h => nomatch h) fun h => ?_
      rw [draftOfItems] at h
      exact nomatch h.1
    | cons field fields =>
      have hitems : DraftsItems means draft (field :: fields) (doc :: items) result ↔
          ∃ content, means field doc content ∧
            DraftsItems means (draft.set field content) fields items result := by
        constructor
        · rintro (_ | ⟨hcontent, hrest⟩)
          exact ⟨_, hcontent, hrest⟩
        · rintro ⟨content, hcontent, hrest⟩
          exact .cons hcontent hrest
      rw [hitems, List.zip_cons_cons, List.forall_mem_cons, draftOfItems, readField_eq]
      simp only [ih, hmeans doc value hvalue]
      cases field.contentOfJson value with
      | error fault => simp [Except.map]
      | ok content =>
        constructor
        · rintro ⟨_, ⟨hcontent, hfaithful⟩, hrest, hparts⟩
          obtain rfl := Except.ok.inj hcontent
          exact ⟨hrest, hfaithful, hparts⟩
        · rintro ⟨hrest, hfaithful, hparts⟩
          exact ⟨content, ⟨rfl, hfaithful⟩, hrest, hparts⟩

theorem drafts_iff {doc : Document} {value : Json} (h : doc.DenotesWithin (levels + 1) value)
    (declaration : Declaration) :
    (∃ draft, Drafts means doc draft ∧ draft.finish = .ok declaration) ↔
      ofJson value = .ok declaration ∧ Faithful doc := by
  cases doc with
  | object members =>
    obtain ⟨pairs, hpairs, rfl⟩ := Json.Document.denotesWithin_object_iff.mp h
    have hread (draft : Draft) : (∀ field, contentOfPairs pairs {} field = .ok (draft.get field)) ↔
        ∀ field : Field, field.contentOfJson (((Dict.ofList pairs).get? field.name).getD .null) =
          .ok (draft.get field) := by
      refine forall_congr' fun field => ?_
      rw [contentOfPairs, Dict.get?_ofList]
      cases pairs.reverse.lookup field.name with
      | none => rw [Option.elim_none, Option.getD_none, contentOfJson_null]
      | some value => rfl
    have hobject : Faithful (.object members) ↔ (fieldsNamed members).Nodup ∧ ∀ member ∈ members,
        ∀ field : Field, member.1 = some field.name → FaithfulUnder field member.2 := by
      constructor
      · rintro ⟨honce, hparts⟩
        exact ⟨honce, hparts⟩
      · rintro ⟨honce, hparts⟩
        exact .object honce hparts
    have hunseen : ∀ field ∈ fieldsNamed members, field ∉ ([] : List Field) :=
      fun _ _ => List.not_mem_nil
    rw [Json.ofPairs, ofJson_object_eq_ok_iff, hobject]
    simp only [Drafts, draftsMembers_iff hmeans hpairs, hread, and_iff_left hunseen]
    constructor
    · rintro ⟨draft, ⟨honce, hparts, hcontents⟩, hfinish⟩
      exact ⟨⟨draft, hfinish, hcontents⟩, honce, hparts⟩
    · rintro ⟨⟨draft, hfinish, hcontents⟩, honce, hparts⟩
      exact ⟨draft, ⟨honce, hparts, hcontents⟩, hfinish⟩
  | array items =>
    obtain ⟨values, hvalues, rfl⟩ := Json.Document.denotesWithin_array_iff.mp h
    have harray : Faithful (.array items) ↔
        ∀ pair ∈ Field.all.zip items, FaithfulUnder pair.1 pair.2 := by
      constructor
      · rintro ⟨⟩
        assumption
      · exact .array
    rw [ofJson, harray]
    simp only [Drafts, draftsItems_iff hmeans hvalues values.length]
    cases draftOfItems values.length {} Field.all values with
    | error fault => simp [bind, Except.bind]
    | ok draft => simp [bind, Except.bind, and_comm]
  | null | bool b | number parts | string content =>
    refine iff_of_false ?_ ?_
    · rintro ⟨draft, hdrafts, -⟩
      exact hdrafts
    · rintro ⟨-, ⟨⟩⟩

end Drafts

/-- A document that denotes a value is a declaration just when its value is one and keeps what
matters. -/
theorem declares_iff (levels : Nat) : AgreesWithin levels (Declares levels) := by
  have hobject (below : Nat) {mayOpen : Bool} {declares : Document → Declaration → Prop}
      (hopen : mayOpen = decide (0 < below))
      (hdeclares : ∀ levels, below = levels + 1 → AgreesWithin levels declares) :
      AgreesWithin (below + 1) fun doc declaration => ∃ draft,
        Drafts (Field.Means mayOpen declares) doc draft ∧ draft.finish = .ok declaration := by
    subst hopen
    exact fun _ _ declaration h =>
      drafts_iff (fun _ _ hvalue => means_iff hdeclares hvalue) h declaration
  induction levels using Nat.twoStepInduction with
  | zero =>
    rintro doc value declaration h
    refine iff_of_false (fun hdeclares => hdeclares) ?_
    rintro ⟨-, ⟨⟩⟩
    · exact Json.Document.not_denotesWithin_zero_object h
    · exact Json.Document.not_denotesWithin_zero_array h
  | one => exact hobject 0 rfl fun _ hlevels => nomatch hlevels
  | more levels ih _ =>
    refine hobject (levels + 1) (by simp) fun below hbelow => ?_
    obtain rfl := Nat.succ.inj hbelow
    exact ih

end Abac.Declaration
