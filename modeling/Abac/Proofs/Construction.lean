import Abac.Proofs.Compilation
import Abac.Proofs.PolicyTree
import Abac.Proofs.Rule.Acceptance

/-!
How policies come about. Leaves are compiled from declarations, and policies are put together of
other ones, as compositions or as groups (`Policy.Constructed`). Compiling a declaration, to
whatever depth it nests groups, gives a policy of this kind (`Policy.constructed_of_compile`). The
clauses in such a policy are rules that were read, and so each of them states something about an
attribute or lists alternatives.
-/
namespace Abac

namespace GroupExpr

/-- The group over an expression whose names stand for the given policies. As in every group, each
named policy is a member once, in the order of the first occurrences. -/
def group (members : String → Policy) (e : GroupExpr) : Policy :=
  .group e (e.names.map fun name => (name, members name))

end GroupExpr

/-- The clauses of a compiled leaf are rules that were read. -/
theorem Leaf.exists_parse_of_compile {declaration : LeafDeclaration} {leaf : Leaf}
    (h : compile declaration = .ok leaf) {clause : Clause} (hclause : clause ∈ leaf.condition) :
    ∃ source, Rule.parse source = .ok clause := by
  obtain ⟨target, -, h⟩ := bind_eq_ok_iff.mp h
  obtain ⟨condition, hcondition, h⟩ := bind_eq_ok_iff.mp h
  obtain rfl := Except.ok.inj h
  obtain ⟨source, -, hparse⟩ := exists_of_mapM hcondition clause hclause
  exact ⟨source, hparse⟩

namespace Policy

mutual

def leaves : Policy → List Leaf
  | .leaf content => [content]
  | .composite _ left right => leaves left ++ leaves right
  | .group _ members => leavesOfMembers members

def leavesOfMembers : List (String × Policy) → List Leaf
  | [] => []
  | (_, policy) :: rest => leaves policy ++ leavesOfMembers rest

end

/-- The policies that are made of compiled leaves by composition and by grouping. -/
inductive Constructed : Policy → Prop where
  | leaf {declaration : LeafDeclaration} {content : Leaf}
      (h : Leaf.compile declaration = .ok content) : Constructed (.leaf content)
  | composite (op : Connective) {left right : Policy} (hleft : Constructed left)
      (hright : Constructed right) : Constructed (.composite op left right)
  | group (e : GroupExpr) {members : String → Policy}
      (h : ∀ name ∈ e.names, Constructed (members name)) : Constructed (e.group members)

theorem leavesOfMembers_eq_flatMap (members : List (String × Policy)) :
    leavesOfMembers members = members.flatMap fun member => member.2.leaves := by
  induction members with
  | nil => rfl
  | cons member rest ih => rw [leavesOfMembers, ih, List.flatMap_cons]

/-- The leaves of a node are those of its children. -/
theorem leaves_subset_of_mem_children {policy child : Policy} (h : child ∈ policy.children) :
    child.leaves ⊆ policy.leaves := by
  cases policy with
  | leaf content => exact absurd h List.not_mem_nil
  | composite op left right =>
    rcases List.mem_cons.mp h with rfl | hright
    · exact List.subset_append_left _ _
    · exact List.mem_singleton.mp hright ▸ List.subset_append_right _ _
  | group expression members =>
    obtain ⟨member, hmember, rfl⟩ := List.mem_map.mp h
    intro leaf hleaf
    rw [leaves, leavesOfMembers_eq_flatMap]
    exact List.mem_flatMap.mpr ⟨member, hmember, hleaf⟩

/-- The clauses of a constructed policy are rules that were read. -/
theorem Constructed.exists_parse {policy : Policy} (h : policy.Constructed) {leaf : Leaf}
    (hleaf : leaf ∈ policy.leaves) {clause : Clause} (hclause : clause ∈ leaf.condition) :
    ∃ source, Rule.parse source = .ok clause := by
  induction h with
  | leaf hcompile =>
    obtain rfl := List.mem_singleton.mp hleaf
    exact Leaf.exists_parse_of_compile hcompile hclause
  | composite op _ _ ihleft ihright =>
    rcases List.mem_append.mp hleaf with hmem | hmem
    · exact ihleft hmem
    · exact ihright hmem
  | group e _ ih =>
    rw [GroupExpr.group, leaves, leavesOfMembers_eq_flatMap, List.flatMap_map] at hleaf
    obtain ⟨name, hname, hmem⟩ := List.mem_flatMap.mp hleaf
    exact ih name hname hmem

/-- The members that are selected are the policies of their names. -/
theorem selectMembers_eq_map (fallback : Policy) {compiled : Dict Policy} {names : List String}
    {members : List (String × Policy)} (h : selectMembers compiled names = .ok members) :
    members = names.map (fun name => (name, (compiled.get? name).getD fallback)) ∧
      ∀ member ∈ members, compiled.get? member.1 = some member.2 := by
  induction names generalizing members with
  | nil =>
    obtain rfl := Except.ok.inj h
    exact ⟨rfl, fun _ hmember => absurd hmember List.not_mem_nil⟩
  | cons name names ih =>
    rw [selectMembers] at h
    split at h
    · cases h
    · next policy hget =>
      obtain ⟨rest, hrest, h⟩ := bind_eq_ok_iff.mp h
      obtain rfl := Except.ok.inj h
      obtain ⟨rfl, hmembers⟩ := ih hrest
      refine ⟨?_, List.forall_mem_cons.mpr ⟨hget, hmembers⟩⟩
      rw [List.map_cons, hget, Option.getD_some]

/-- Each name in the expression of a compiled group stands for the compiled member of this name. -/
theorem exists_members_of_compile {source : String} {e : GroupExpr}
    (he : GroupExpr.parse source = .ok e) {policies : Entries Declaration none} {policy : Policy}
    (h : compile (.group source policies) = .ok policy) : ∃ members : String → Policy,
      (∀ name ∈ e.names, ∃ declaration, policies.get? name = some declaration ∧
        compile declaration = .ok (members name)) ∧ policy = e.group members := by
  obtain ⟨found, compiled, selected, hfound, hcompiled, hselected, rfl⟩ :=
    compile_group_eq_ok_iff.mp h
  obtain rfl := Except.ok.inj (hfound.symm.trans he)
  -- The fallback stands for no name, since all names that are selected are declared.
  obtain ⟨hmap, hget⟩ := selectMembers_eq_map (.leaf ⟨.permit, [], []⟩) hselected
  refine ⟨fun name => (compiled.get? name).getD (.leaf ⟨.permit, [], []⟩), fun name hname => ?_,
    by rw [hmap, GroupExpr.group]⟩
  have hmember := hget _ (hmap ▸ List.mem_map_of_mem hname)
  have hdeclared := Entries.map_get?_of_traverse hcompiled name
  rw [hmember, Option.map_some] at hdeclared
  exact Option.map_eq_some_iff.mp hdeclared

/-- What a declaration compiles to is constructed. -/
theorem constructed_of_compile {declaration : Declaration} {policy : Policy}
    (h : compile declaration = .ok policy) : policy.Constructed := by
  induction declaration using Declaration.inductionOn generalizing policy with
  | leaf content =>
    rw [compile] at h
    obtain ⟨leaf, hleaf, h⟩ := bind_eq_ok_iff.mp h
    obtain rfl := Except.ok.inj h
    exact .leaf hleaf
  | group source policies ih =>
    obtain ⟨e, -, -, he, -⟩ := compile_group_eq_ok_iff.mp h
    obtain ⟨members, hmembers, rfl⟩ := exists_members_of_compile he h
    refine .group e fun name hname => ?_
    obtain ⟨declaration, hget, hcompile⟩ := hmembers name hname
    exact ih name declaration hget hcompile

end Policy

end Abac
