import Abac.Policy

/-!
Policies as trees. Induction on a policy gives an induction hypothesis for every member of a group
(`Policy.inductionOn`). Composites and groups differ in when they apply; apart from that both are
nodes that combine the results of their children (`Policy.evaluate_node`), and what concerns the
combination alone is proved for both at once (`Policy.inductionOnChildren`).
-/
namespace Abac.Policy

mutual

/-- What holds of leaves, and of composites and groups whose parts have it, holds of every
policy. -/
@[elab_as_elim, induction_eliminator]
theorem inductionOn {motive : Policy → Prop} (policy : Policy)
    (leaf : ∀ content, motive (.leaf content))
    (composite : ∀ op left right, motive left → motive right → motive (.composite op left right))
    (group : ∀ expression members, (∀ member ∈ members, motive member.2) →
      motive (.group expression members)) : motive policy := by
  match policy with
  | .leaf content => exact leaf content
  | .composite op left right =>
    exact composite op left right (inductionOn left leaf composite group)
      (inductionOn right leaf composite group)
  | .group expression members =>
    exact group expression members (inductionOnMembers members leaf composite group)

theorem inductionOnMembers {motive : Policy → Prop} (members : List (String × Policy))
    (leaf : ∀ content, motive (.leaf content))
    (composite : ∀ op left right, motive left → motive right → motive (.composite op left right))
    (group : ∀ expression members, (∀ member ∈ members, motive member.2) →
      motive (.group expression members)) : ∀ member ∈ members, motive member.2 := by
  match members with
  | [] => exact fun member hmember => absurd hmember List.not_mem_nil
  | (name, policy) :: rest =>
    intro member hmember
    rcases List.mem_cons.mp hmember with rfl | hrest
    · exact inductionOn policy leaf composite group
    · exact inductionOnMembers rest leaf composite group member hrest

end

def children : Policy → List Policy
  | .leaf _ => []
  | .composite _ left right => [left, right]
  | .group _ members => members.map (·.2)

def isLeaf : Policy → Bool
  | .leaf _ => true
  | _ => false

/-- What holds of leaves, and of nodes whose children have it, holds of every policy. -/
@[elab_as_elim]
theorem inductionOnChildren {motive : Policy → Prop} (policy : Policy)
    (leaf : ∀ content, motive (.leaf content))
    (node : ∀ policy, policy.isLeaf = false → (∀ child ∈ policy.children, motive child) →
      motive policy) : motive policy := by
  induction policy with
  | leaf content => exact leaf content
  | composite op left right ihleft ihright =>
    apply node _ rfl
    intro child hchild
    rcases List.mem_cons.mp hchild with rfl | hright
    · exact ihleft
    · exact List.mem_singleton.mp hright ▸ ihright
  | group expression members ih =>
    apply node _ rfl
    intro child hchild
    obtain ⟨member, hmember, rfl⟩ := List.mem_map.mp hchild
    exact ih member hmember

variable (ctx : Context)

/-- The results of the members, each under its name and in the order of the members. -/
theorem evaluateMembers_eq_map (members : List (String × Policy)) :
    evaluateMembers ctx members = members.map fun member => (member.1, evaluate ctx member.2) := by
  induction members with
  | nil => rfl
  | cons member rest ih => rw [evaluateMembers, ih, List.map_cons]

/-- A node combines the results of its children. -/
theorem evaluate_node {policy : Policy} (hnode : policy.isLeaf = false) :
    policy.evaluate ctx =
      .combine (policy.evaluate ctx).applicable (policy.children.map (evaluate ctx)) := by
  cases policy with
  | leaf content => exact absurd hnode (Bool.noConfusion ·)
  | composite op left right => rfl
  | group expression members =>
    rw [evaluate, evaluateMembers_eq_map, children, List.map_map, List.map_map]
    rfl

end Abac.Policy
