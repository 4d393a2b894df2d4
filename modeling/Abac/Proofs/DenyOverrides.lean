import Abac.Proofs.LeafMeaning
import Abac.Proofs.PolicyTree

/-!
A denial wins at any depth. The contributors of a policy are the leaves that apply and lie below
applicable nodes only; the root itself need not apply. A policy has an effect exactly when it
applies, and then it denies if one of its contributors does and permits otherwise
(`Policy.effect_evaluate`).
-/
namespace Abac.Policy

mutual

/-- The applicable leaves of a policy that are reached through applicable nodes, in the order of
evaluation. A node strictly below the root that does not apply hides its leaves. -/
def contributors (ctx : Context) : Policy → List Leaf
  | .leaf content => if (content.evaluate ctx).applicable then [content] else []
  | .composite _ left right =>
    (if (evaluate ctx left).applicable then contributors ctx left else []) ++
      if (evaluate ctx right).applicable then contributors ctx right else []
  | .group _ members => contributorsOfMembers ctx members

def contributorsOfMembers (ctx : Context) : List (String × Policy) → List Leaf
  | [] => []
  | (_, policy) :: rest =>
    (if (evaluate ctx policy).applicable then contributors ctx policy else []) ++
      contributorsOfMembers ctx rest

end

def denied (ctx : Context) (policy : Policy) : Bool :=
  (policy.contributors ctx).any fun leaf => leaf.effect = .deny

variable (ctx : Context)

theorem contributorsOfMembers_eq_flatMap (members : List (String × Policy)) :
    contributorsOfMembers ctx members = (members.map (·.2)).flatMap fun child =>
      if (child.evaluate ctx).applicable then child.contributors ctx else [] := by
  induction members with
  | nil => rfl
  | cons member rest ih => rw [contributorsOfMembers, ih, List.map_cons, List.flatMap_cons]

/-- The contributors of a node are those of its applicable children. -/
theorem contributors_node {policy : Policy} (hnode : policy.isLeaf = false) :
    policy.contributors ctx = policy.children.flatMap fun child =>
      if (child.evaluate ctx).applicable then child.contributors ctx else [] := by
  cases policy with
  | leaf content => exact absurd hnode (Bool.noConfusion ·)
  | composite op left right => simp [contributors, children]
  | group expression members => exact contributorsOfMembers_eq_flatMap ctx members

theorem denied_node {policy : Policy} (hnode : policy.isLeaf = false) :
    policy.denied ctx = policy.children.any fun child =>
      (child.evaluate ctx).applicable && child.denied ctx := by
  rw [denied, contributors_node ctx hnode, List.any_flatMap]
  congr 1
  funext child
  cases (child.evaluate ctx).applicable <;> rfl

/-- The effect of a policy. It is there exactly when the policy applies, and so a parent that asks
its applicable children for denials misses none. -/
theorem effect_evaluate (policy : Policy) :
    (policy.evaluate ctx).effect =
      if (policy.evaluate ctx).applicable then
        some (if policy.denied ctx then .deny else .permit)
      else none := by
  induction policy using inductionOnChildren with
  | leaf content =>
    have heffect := content.effect_evaluate ctx
    rw [← content.applicable_evaluate] at heffect
    rw [evaluate, heffect, denied, contributors]
    cases (content.evaluate ctx).applicable with
    | false => rfl
    | true => cases hcontent : content.effect <;> simp [hcontent]
  | node policy hnode ih =>
    have hdenies : (policy.children.map (evaluate ctx)).any Evaluation.denies =
        policy.denied ctx := by
      rw [denied_node ctx hnode, List.any_map, Bool.eq_iff_iff, List.any_eq_true, List.any_eq_true]
      refine exists_congr fun child => and_congr_right fun hchild => ?_
      simp only [Function.comp, Evaluation.denies, ih child hchild]
      cases (child.evaluate ctx).applicable <;> cases child.denied ctx <;> simp
    rw [evaluate_node ctx hnode]
    simp only [Evaluation.combine, hdenies]

/-- A denial overrides at any depth: an applicable policy denies exactly when a contributor does. -/
theorem effect_eq_deny_iff_exists_contributor (policy : Policy) (ctx : Context) :
    ((policy.evaluate ctx).effect = none ↔ (policy.evaluate ctx).applicable = false) ∧
    ((policy.evaluate ctx).applicable = true →
      ((policy.evaluate ctx).effect = some .deny ↔
        ∃ leaf ∈ policy.contributors ctx, leaf.effect = .deny) ∧
      ((policy.evaluate ctx).effect = some .permit ↔
        ¬∃ leaf ∈ policy.contributors ctx, leaf.effect = .deny)) ∧
    ((policy.evaluate ctx).isPermitted = true ↔
      (policy.evaluate ctx).applicable = true ∧
        ¬∃ leaf ∈ policy.contributors ctx, leaf.effect = .deny) := by
  have hdenied : policy.denied ctx = true ↔
      ∃ leaf ∈ policy.contributors ctx, leaf.effect = .deny := by
    rw [denied, List.any_eq_true]
    simp only [decide_eq_true_eq]
  rw [← hdenied, Evaluation.isPermitted, decide_eq_true_eq, effect_evaluate]
  cases (policy.evaluate ctx).applicable <;> cases policy.denied ctx <;> simp

end Abac.Policy
