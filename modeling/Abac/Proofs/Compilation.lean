import Abac.Policy
import Abac.Proofs.Declaration.Serialization
import Abac.Proofs.GroupExpr.Names
import Abac.Proofs.Traversal

/-!
When declarations compile, and what is reported when they do not. Everything that a declaration is
made of has to be well-formed in itself: the rules of every leaf, and the expression of every group,
whose names must be those of members. Members count whether or not the expression names them. Of all
that is wrong one fault is reported, the first in the order of the rules, the members and the names
(`Declaration.Reports`). Compiling succeeds and fails in this way and in no other
(`Policy.compile_iff_reports`).
-/
namespace Abac

namespace Declaration

mutual

/-- What holds of leaves, and of groups whose members have it, holds of every declaration. -/
@[elab_as_elim]
theorem inductionOn {motive : Declaration → Prop} (declaration : Declaration)
    (leaf : ∀ content, motive (.leaf content))
    (group : ∀ source policies, (∀ name member, Entries.get? name policies = some member →
      motive member) → motive (.group source policies)) : motive declaration := by
  match declaration with
  | .leaf content => exact leaf content
  | .group source policies =>
    exact group source policies (inductionOnMembers policies leaf group)

theorem inductionOnMembers {motive : Declaration → Prop} {low : Option String}
    (policies : Entries Declaration low) (leaf : ∀ content, motive (.leaf content))
    (group : ∀ source policies, (∀ name member, Entries.get? name policies = some member →
      motive member) → motive (.group source policies)) :
    ∀ name member, policies.get? name = some member → motive member := by
  match policies with
  | .nil => exact nofun
  | .cons first above declaration rest =>
    intro name member hget
    rw [Entries.get?] at hget
    split at hget
    · exact Option.some.inj hget ▸ inductionOn declaration leaf group
    · exact inductionOnMembers rest leaf group name member hget

end

theorem mem_partsOfMembers_iff {low : Option String} {policies : Entries Declaration low}
    {part : Declaration} :
    part ∈ partsOfMembers policies ↔
      ∃ name member, policies.get? name = some member ∧ part ∈ member.parts := by
  induction policies with
  | nil => exact iff_of_false List.not_mem_nil fun ⟨_, _, hget, _⟩ => nomatch hget
  | cons first above declaration rest ih =>
    rw [partsOfMembers, List.mem_append, ih]
    constructor
    · rintro (hpart | ⟨name, member, hget, hpart⟩)
      · exact ⟨first, declaration, by rw [Entries.get?, if_pos rfl], hpart⟩
      · exact ⟨name, member, Entries.get?_cons_of_get?_rest hget, hpart⟩
    · rintro ⟨name, member, hget, hpart⟩
      rw [Entries.get?] at hget
      split at hget
      · exact .inl (Option.some.inj hget ▸ hpart)
      · exact .inr ⟨name, member, hget, hpart⟩

/-- What stands in a declaration itself can be compiled: the rules of a leaf, and the expression of a
group, if it names members only. -/
def IsWellFormed : Declaration → Prop
  | .leaf content => ∀ rule ∈ content.target ++ content.condition, ∃ clause,
    Rule.parse rule = .ok clause
  | .group source policies => ∃ e, GroupExpr.parse source = .ok e ∧
    ∀ name ∈ e.occurrences, policies.contains name = true

def WellFormed (declaration : Declaration) : Prop := ∀ part ∈ declaration.parts, part.IsWellFormed

/-- The fault that is reported of a declaration. In a leaf it is that of the first rule that cannot
be read, and those of the target come first. In a group it is that of the expression, or else that
of the first member in the order of the names, or else the first word of the expression that names
no member. -/
inductive Reports : Declaration → PolicyError → Prop where
  | rule {content : LeafDeclaration} {before after : List String} {rule : String}
      {error : PolicyError} (hrules : content.target ++ content.condition = before ++ rule :: after)
      (hbefore : ∀ earlier ∈ before, ∃ clause, Rule.parse earlier = .ok clause)
      (hrule : Rule.parse rule = .error error) : Reports (.leaf content) error
  | expression {source : String} {policies : Entries Declaration none} {error : PolicyError}
      (he : GroupExpr.parse source = .error error) : Reports (.group source policies) error
  | member {source : String} {policies : Entries Declaration none} {e : GroupExpr} {name : String}
      {member : Declaration} {error : PolicyError} (he : GroupExpr.parse source = .ok e)
      (hmember : policies.get? name = some member)
      (hbefore : ∀ earlier other, earlier < name → policies.get? earlier = some other →
        other.WellFormed)
      (herror : Reports member error) : Reports (.group source policies) error
  | unknown {source : String} {policies : Entries Declaration none} {e : GroupExpr}
      {before after : List String} {name : String} (he : GroupExpr.parse source = .ok e)
      (hmembers : ∀ name member, policies.get? name = some member → member.WellFormed)
      (hnames : e.occurrences = before ++ name :: after)
      (hbefore : ∀ earlier ∈ before, policies.contains earlier = true)
      (hname : policies.contains name = false) :
      Reports (.group source policies) (.unknownPolicy name)

theorem reports_leaf_iff {content : LeafDeclaration} {error : PolicyError} :
    (Declaration.leaf content).Reports error ↔ ∃ before rule after,
      content.target ++ content.condition = before ++ rule :: after ∧
        (∀ earlier ∈ before, ∃ clause, Rule.parse earlier = .ok clause) ∧
        Rule.parse rule = .error error := by
  constructor
  · rintro ⟨hrules, hbefore, hrule⟩
    exact ⟨_, _, _, hrules, hbefore, hrule⟩
  · rintro ⟨before, rule, after, hrules, hbefore, hrule⟩
    exact .rule hrules hbefore hrule

theorem reports_group_iff {source : String} {policies : Entries Declaration none}
    {error : PolicyError} :
    (Declaration.group source policies).Reports error ↔
      GroupExpr.parse source = .error error ∨ ∃ e, GroupExpr.parse source = .ok e ∧
        ((∃ name member, policies.get? name = some member ∧
          (∀ earlier other, earlier < name → policies.get? earlier = some other →
            other.WellFormed) ∧ member.Reports error) ∨
        (∀ name member, policies.get? name = some member → member.WellFormed) ∧
          ∃ before name after, e.occurrences = before ++ name :: after ∧
            (∀ earlier ∈ before, policies.contains earlier = true) ∧
            policies.contains name = false ∧ error = .unknownPolicy name) := by
  constructor
  · rintro (_ | he | ⟨he, hmember, hbefore, herror⟩ | ⟨he, hmembers, hnames, hbefore, hname⟩)
    · exact .inl he
    · exact .inr ⟨_, he, .inl ⟨_, _, hmember, hbefore, herror⟩⟩
    · exact .inr ⟨_, he, .inr ⟨hmembers, _, _, _, hnames, hbefore, hname, rfl⟩⟩
  · rintro (he | ⟨e, he, ⟨name, member, hmember, hbefore, herror⟩ |
      ⟨hmembers, before, name, after, hnames, hbefore, hname, rfl⟩⟩)
    · exact .expression he
    · exact .member he hmember hbefore herror
    · exact .unknown he hmembers hnames hbefore hname

theorem wellFormed_leaf_iff {content : LeafDeclaration} :
    (Declaration.leaf content).WellFormed ↔ (Declaration.leaf content).IsWellFormed := by
  simp [WellFormed, parts]

theorem wellFormed_group_iff {source : String} {policies : Entries Declaration none} :
    (Declaration.group source policies).WellFormed ↔
      (Declaration.group source policies).IsWellFormed ∧
        ∀ name member, policies.get? name = some member → member.WellFormed := by
  simp only [WellFormed, parts, List.forall_mem_cons, mem_partsOfMembers_iff]
  refine and_congr_right fun _ => ?_
  constructor
  · exact fun h name member hget part hpart => h part ⟨name, member, hget, hpart⟩
  · exact fun h part ⟨name, member, hget, hpart⟩ => h name member hget part hpart

end Declaration

namespace Policy

theorem compileMembers_eq_traverse {low : Option String} (policies : Entries Declaration low) :
    compileMembers policies = policies.traverse compile := by
  induction policies with
  | nil => rfl
  | cons name above declaration rest ih => rw [compileMembers, Entries.traverse, ih]

/-- Compiling a leaf is reading its rules one after the other. -/
theorem compile_leaf_eq_error_iff {content : LeafDeclaration} {error : PolicyError} :
    compile (.leaf content) = .error error ↔
      (content.target ++ content.condition).mapM Rule.parse = .error error := by
  rw [compile, Leaf.compile, List.mapM_append]
  simp only [bind_eq_error_iff, bind_eq_ok_iff, pure, Except.pure]
  simp

theorem exists_compile_leaf_iff {content : LeafDeclaration} :
    (∃ policy, compile (.leaf content) = .ok policy) ↔
      ∃ clauses, (content.target ++ content.condition).mapM Rule.parse = .ok clauses := by
  rw [compile, Leaf.compile, List.mapM_append]
  simp only [bind_eq_ok_iff, pure, Except.pure]
  simp

theorem compile_group_eq_ok_iff {source : String} {policies : Entries Declaration none}
    {policy : Policy} :
    compile (.group source policies) = .ok policy ↔ ∃ e compiled members,
      GroupExpr.parse source = .ok e ∧ policies.traverse compile = .ok compiled ∧
        selectMembers compiled e.names = .ok members ∧ policy = .group e members := by
  rw [compile]
  simp only [bind_eq_ok_iff, compileMembers_eq_traverse, pure, Except.pure, Except.ok.injEq]
  constructor
  · rintro ⟨e, he, compiled, hcompiled, members, hmembers, rfl⟩
    exact ⟨e, compiled, members, he, hcompiled, hmembers, rfl⟩
  · rintro ⟨e, compiled, members, he, hcompiled, hmembers, rfl⟩
    exact ⟨e, he, compiled, hcompiled, members, hmembers, rfl⟩

def selectMember (compiled : Dict Policy) (name : String) : Except PolicyError (String × Policy) :=
  match compiled.get? name with
  | none => .error (.unknownPolicy name)
  | some policy => .ok (name, policy)

theorem selectMembers_eq_mapM (compiled : Dict Policy) (names : List String) :
    selectMembers compiled names = names.mapM (selectMember compiled) := by
  induction names with
  | nil => rfl
  | cons name rest ih =>
    rw [selectMembers, List.mapM_cons, selectMember, ih]
    cases compiled.get? name <;> rfl

theorem exists_selectMember_iff {compiled : Dict Policy} {name : String} :
    (∃ member, selectMember compiled name = .ok member) ↔ compiled.contains name = true := by
  rw [selectMember, Entries.contains]
  cases compiled.get? name <;> simp

theorem selectMember_eq_error_iff {compiled : Dict Policy} {name : String} {error : PolicyError} :
    selectMember compiled name = .error error ↔
      compiled.contains name = false ∧ error = .unknownPolicy name := by
  rw [selectMember, Entries.contains]
  cases compiled.get? name <;> simp [eq_comm]

theorem exists_selectMembers_iff {compiled : Dict Policy} {e : GroupExpr} :
    (∃ members, selectMembers compiled e.names = .ok members) ↔
      ∀ name ∈ e.occurrences, compiled.contains name = true := by
  simp only [selectMembers_eq_mapM, exists_mapM_eq_ok_iff, exists_selectMember_iff,
    GroupExpr.mem_names_iff]

/-- The first word that names no member is reported. -/
theorem selectMembers_eq_error_iff {compiled : Dict Policy} {e : GroupExpr} {error : PolicyError} :
    selectMembers compiled e.names = .error error ↔ ∃ before name after,
      e.occurrences = before ++ name :: after ∧
        (∀ earlier ∈ before, compiled.contains earlier = true) ∧
        compiled.contains name = false ∧ error = .unknownPolicy name := by
  have hsplit (words : List String) :
      (∃ before name after, words = before ++ name :: after ∧
        (∀ earlier ∈ before, compiled.contains earlier = true) ∧
        compiled.contains name = false ∧ error = .unknownPolicy name) ↔
      ∃ name, words.find? (fun name => !compiled.contains name) = some name ∧
        error = .unknownPolicy name := by
    simp only [List.find?_eq_some_iff_append, Bool.not_not, Bool.not_eq_true']
    constructor
    · rintro ⟨before, name, after, hwords, hbefore, hname, herror⟩
      exact ⟨name, ⟨hname, before, after, hwords, hbefore⟩, herror⟩
    · rintro ⟨name, ⟨hname, before, after, hwords, hbefore⟩, herror⟩
      exact ⟨before, name, after, hwords, hbefore, hname, herror⟩
  rw [hsplit, ← GroupExpr.find?_names, ← hsplit, selectMembers_eq_mapM, mapM_eq_error_iff]
  simp only [exists_selectMember_iff, selectMember_eq_error_iff]

theorem contains_of_traverse {policies : Entries Declaration none} {compiled : Entries Policy none}
    (h : policies.traverse compile = .ok compiled) (name : String) :
    compiled.contains name = policies.contains name := by
  have hname := congrArg Option.isSome (Entries.map_get?_of_traverse h name)
  rw [Option.isSome_map, Option.isSome_map] at hname
  exact hname.symm

/-- A group compiles just when its expression is read, its members compile and its names are those
of members. -/
theorem exists_compile_group_iff {source : String} {policies : Entries Declaration none} :
    (∃ policy, compile (.group source policies) = .ok policy) ↔
      (Declaration.group source policies).IsWellFormed ∧
        ∀ name member, policies.get? name = some member →
          ∃ policy, compile member = .ok policy := by
  rw [← Entries.exists_traverse_eq_ok_iff]
  constructor
  · rintro ⟨policy, h⟩
    obtain ⟨e, compiled, members, he, hcompiled, hselect, -⟩ := compile_group_eq_ok_iff.mp h
    refine ⟨⟨e, he, fun name hname => ?_⟩, compiled, hcompiled⟩
    rw [← contains_of_traverse hcompiled]
    exact exists_selectMembers_iff.mp ⟨members, hselect⟩ name hname
  · rintro ⟨⟨e, he, hnames⟩, compiled, hcompiled⟩
    obtain ⟨members, hselect⟩ : ∃ members, selectMembers compiled e.names = .ok members := by
      refine exists_selectMembers_iff.mpr fun name hname => ?_
      rw [contains_of_traverse hcompiled]
      exact hnames name hname
    exact ⟨.group e members,
      compile_group_eq_ok_iff.mpr ⟨e, compiled, members, he, hcompiled, hselect, rfl⟩⟩

/-- A group fails by its expression, else by the first member that fails, else by the first word that
names no member. -/
theorem compile_group_eq_error_iff {source : String} {policies : Entries Declaration none}
    {error : PolicyError} :
    compile (.group source policies) = .error error ↔
      GroupExpr.parse source = .error error ∨ ∃ e, GroupExpr.parse source = .ok e ∧
        ((∃ name member, policies.get? name = some member ∧
          (∀ earlier other, earlier < name → policies.get? earlier = some other →
            ∃ policy, compile other = .ok policy) ∧ compile member = .error error) ∨
        (∀ name member, policies.get? name = some member →
          ∃ policy, compile member = .ok policy) ∧
          ∃ before name after, e.occurrences = before ++ name :: after ∧
            (∀ earlier ∈ before, policies.contains earlier = true) ∧
            policies.contains name = false ∧ error = .unknownPolicy name) := by
  have hselect (e : GroupExpr) :
      (∃ compiled, policies.traverse compile = .ok compiled ∧
        selectMembers compiled e.names = .error error) ↔
      (∃ compiled, policies.traverse compile = .ok compiled) ∧
        ∃ before name after, e.occurrences = before ++ name :: after ∧
          (∀ earlier ∈ before, policies.contains earlier = true) ∧
          policies.contains name = false ∧ error = .unknownPolicy name := by
    rw [← exists_and_right]
    refine exists_congr fun compiled => and_congr_right fun hcompiled => ?_
    simp only [selectMembers_eq_error_iff, contains_of_traverse hcompiled]
  rw [compile]
  simp only [bind_eq_error_iff, compileMembers_eq_traverse, pure, Except.pure, reduceCtorEq,
    and_false, exists_false, or_false, hselect, Entries.traverse_eq_error_iff,
    Entries.exists_traverse_eq_ok_iff]

/-- A declaration compiles just when all that it is made of is well-formed, members that no
expression names included, and otherwise the fault that is reported is the first in order. -/
theorem compile_iff_reports (declaration : Declaration) :
    ((∃ policy, compile declaration = .ok policy) ↔
      ∀ part ∈ declaration.parts, part.IsWellFormed) ∧
    ∀ error, compile declaration = .error error ↔ declaration.Reports error := by
  change (_ ↔ declaration.WellFormed) ∧ _
  induction declaration using Declaration.inductionOn with
  | leaf content =>
    constructor
    · rw [exists_compile_leaf_iff, exists_mapM_eq_ok_iff, Declaration.wellFormed_leaf_iff]
      rfl
    · intro error
      rw [compile_leaf_eq_error_iff, mapM_eq_error_iff, Declaration.reports_leaf_iff]
  | group source policies ih =>
    have hmember (name : String) (member : Declaration) (hget : policies.get? name = some member) :
        (∃ policy, compile member = .ok policy) ↔ member.WellFormed :=
      (ih name member hget).1
    have hmembers : (∀ name member, policies.get? name = some member →
        ∃ policy, compile member = .ok policy) ↔
          ∀ name member, policies.get? name = some member → member.WellFormed :=
      forall_congr' fun name => forall_congr' fun member => forall_congr' (hmember name member)
    constructor
    · rw [exists_compile_group_iff, Declaration.wellFormed_group_iff, hmembers]
    · intro error
      rw [compile_group_eq_error_iff, Declaration.reports_group_iff, hmembers]
      refine or_congr_right (exists_congr fun e => and_congr_right fun _ => or_congr_left ?_)
      refine exists_congr fun name => exists_congr fun member => and_congr_right fun hget => ?_
      refine and_congr ?_ ((ih name member hget).2 error)
      exact forall_congr' fun earlier => forall_congr' fun other => forall_congr' fun _ =>
        forall_congr' (hmember earlier other)

end Policy

end Abac
