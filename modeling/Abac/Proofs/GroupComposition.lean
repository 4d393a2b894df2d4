import Abac.Proofs.Construction
import Abac.Proofs.DenyOverrides
import Abac.Proofs.GroupExpr.Names

/-!
Groups against compositions. An expression without negation can be read in two ways: as a group over
the policies that its names stand for, or node by node as a composition of these policies. Both
apply in the same contexts. A group asks every named policy that applies for a denial. A composition
asks only those that are reached through applicable nodes, so it may permit where the group denies,
and never the other way round (`GroupExpr.isPermitted_compose_of_group`).
-/
namespace Abac

namespace GroupExpr

/-- The truth value depends on the names in the expression only. -/
theorem evaluate_congr {f g : String → Bool} (e : GroupExpr)
    (h : ∀ name ∈ e.occurrences, f name = g name) : e.evaluate f = e.evaluate g := by
  induction e with
  | policy name => exact h name List.mem_cons_self
  | not inner ih => rw [evaluate, evaluate, ih h]
  | and lhs rhs ihl ihr =>
    have hl := ihl fun name hname => h name (List.mem_append_left _ hname)
    have hr := ihr fun name hname => h name (List.mem_append_right _ hname)
    rw [evaluate, evaluate, hl, hr]
  | or lhs rhs ihl ihr =>
    have hl := ihl fun name hname => h name (List.mem_append_left _ hname)
    have hr := ihr fun name hname => h name (List.mem_append_right _ hname)
    rw [evaluate, evaluate, hl, hr]

def isPositive : GroupExpr → Bool
  | policy _ => true
  | not _ => false
  | and lhs rhs => lhs.isPositive && rhs.isPositive
  | or lhs rhs => lhs.isPositive && rhs.isPositive

def compose? (members : String → Policy) : GroupExpr → Option Policy
  | policy name => some (members name)
  | not _ => none
  | and lhs rhs => do return (← lhs.compose? members).and (← rhs.compose? members)
  | or lhs rhs => do return (← lhs.compose? members).or (← rhs.compose? members)

end GroupExpr

namespace Evaluation

/-- A combination denies where it applies and one of its parts denies. -/
theorem denies_combine (applicable : Bool) (parts : List Evaluation) :
    (combine applicable parts).denies = (applicable && parts.any denies) := by
  change (applicable && decide ((if applicable then
    some (if parts.any denies then Effect.deny else .permit) else none) = some .deny)) = _
  cases applicable with
  | false => rfl
  | true => cases parts.any denies <;> rfl

end Evaluation

namespace Policy

variable (ctx : Context)

/-- A policy that applies permits or denies, one of both. -/
theorem isPermitted_evaluate (policy : Policy) :
    (policy.evaluate ctx).isPermitted =
      ((policy.evaluate ctx).applicable && !(policy.evaluate ctx).denies) := by
  rw [Evaluation.isPermitted, Evaluation.denies, effect_evaluate]
  cases (policy.evaluate ctx).applicable <;> cases policy.denied ctx <;> rfl

end Policy

namespace GroupExpr

variable {members : String → Policy} {ctx : Context}

def memberApplies (members : String → Policy) (ctx : Context) (name : String) : Bool :=
  ((members name).evaluate ctx).applicable

def memberDenies (members : String → Policy) (ctx : Context) (name : String) : Bool :=
  ((members name).evaluate ctx).denies

theorem evaluateMembers_names (names : List String) :
    Policy.evaluateMembers ctx (names.map fun name => (name, members name)) =
      names.map fun name => (name, (members name).evaluate ctx) := by
  rw [Policy.evaluateMembers_eq_map, List.map_map]
  rfl

theorem lookup_map_name {α : Type} (f : String → α) {names : List String} {name : String}
    (h : name ∈ names) : (names.map fun name => (name, f name)).lookup name = some (f name) := by
  induction names with
  | nil => exact absurd h List.not_mem_nil
  | cons first rest ih =>
    rw [List.map_cons, List.lookup_cons]
    by_cases hfirst : name = first
    · rw [hfirst, beq_self_eq_true]
    · have hrest : name ∈ rest := by
        rcases List.mem_cons.mp h with heq | hrest
        · exact absurd heq hfirst
        · exact hrest
      rw [beq_eq_false_iff_ne.mpr hfirst]
      exact ih hrest

/-- A group applies where its expression is true of the policies that apply. -/
theorem applicable_group (e : GroupExpr) :
    ((e.group members).evaluate ctx).applicable = e.evaluate (memberApplies members ctx) := by
  have hmember : ∀ name ∈ e.occurrences,
      ((e.names.map fun name => (name, (members name).evaluate ctx)).lookup name).any
        (·.applicable) = memberApplies members ctx name := by
    intro name hname
    rw [lookup_map_name (fun name => (members name).evaluate ctx) (mem_names_iff.mpr hname)]
    rfl
  rw [group, Policy.evaluate, evaluateMembers_names]
  exact e.evaluate_congr hmember

/-- A group denies where it applies and one of the policies that it names denies. -/
theorem denies_group (e : GroupExpr) :
    ((e.group members).evaluate ctx).denies =
      (((e.group members).evaluate ctx).applicable && e.names.any (memberDenies members ctx)) := by
  rw [group, Policy.evaluate, evaluateMembers_names, Evaluation.denies_combine, List.map_map,
    List.any_map]
  rfl

/-- A composition denies where it applies and one of its two sides denies. -/
theorem denies_composite (op : Connective) (left right : Policy) :
    ((Policy.composite op left right).evaluate ctx).denies =
      (((Policy.composite op left right).evaluate ctx).applicable &&
        ((left.evaluate ctx).denies || (right.evaluate ctx).denies)) := by
  rw [Policy.evaluate, Evaluation.denies_combine, List.any_cons, List.any_cons, List.any_nil,
    Bool.or_false]
  rfl

/-- What a composition has in common with the group: it applies where the expression is true, and
only a named policy that denies makes it deny. -/
structure Composes (members : String → Policy) (ctx : Context) (e : GroupExpr)
    (composed : Policy) : Prop where
  applicable : (composed.evaluate ctx).applicable = e.evaluate (memberApplies members ctx)
  denies : (composed.evaluate ctx).denies = true →
    ∃ name ∈ e.occurrences, memberDenies members ctx name = true

/-- A node composes if its sides do, for the expression that its connective forms. -/
theorem Composes.composite {l r : GroupExpr} {left right : Policy}
    (hl : Composes members ctx l left) (hr : Composes members ctx r right) (op : Connective)
    {e : GroupExpr} (hoccurrences : e.occurrences = l.occurrences ++ r.occurrences)
    (hevaluate : ∀ f, e.evaluate f = op.apply (l.evaluate f) (r.evaluate f)) :
    Composes members ctx e (.composite op left right) where
  applicable := by
    rw [hevaluate, ← hl.applicable, ← hr.applicable]
    rfl
  denies hdenies := by
    rw [denies_composite, Bool.and_eq_true, Bool.or_eq_true] at hdenies
    rw [hoccurrences]
    rcases hdenies.2 with hside | hside
    · obtain ⟨name, hname, hmember⟩ := hl.denies hside
      exact ⟨name, List.mem_append_left _ hname, hmember⟩
    · obtain ⟨name, hname, hmember⟩ := hr.denies hside
      exact ⟨name, List.mem_append_right _ hname, hmember⟩

/-- An expression without negation has a composition. -/
theorem exists_compose (e : GroupExpr) (he : e.isPositive = true) :
    ∃ composed, e.compose? members = some composed ∧ Composes members ctx e composed := by
  induction e with
  | policy name =>
    exact ⟨members name, rfl, rfl, fun hdenies => ⟨name, List.mem_cons_self, hdenies⟩⟩
  | not inner _ => exact Bool.noConfusion he
  | and lhs rhs ihl ihr =>
    rw [isPositive, Bool.and_eq_true] at he
    obtain ⟨left, hleft, hl⟩ := ihl he.1
    obtain ⟨right, hright, hr⟩ := ihr he.2
    exact ⟨left.and right, by rw [compose?, hleft, hright]; rfl,
      hl.composite hr .and rfl fun _ => rfl⟩
  | or lhs rhs ihl ihr =>
    rw [isPositive, Bool.and_eq_true] at he
    obtain ⟨left, hleft, hl⟩ := ihl he.1
    obtain ⟨right, hright, hr⟩ := ihr he.2
    exact ⟨left.or right, by rw [compose?, hleft, hright]; rfl,
      hl.composite hr .or rfl fun _ => rfl⟩

/-- A group over an expression without negation and the composition that the expression describes
apply in the same contexts, and what the group permits the composition permits, too. -/
theorem isPermitted_compose_of_group (e : GroupExpr) (he : e.isPositive = true)
    (members : String → Policy) (ctx : Context) :
    ∃ composed, e.compose? members = some composed ∧
      (composed.evaluate ctx).applicable = ((e.group members).evaluate ctx).applicable ∧
      (((e.group members).evaluate ctx).isPermitted = true →
        (composed.evaluate ctx).isPermitted = true) := by
  obtain ⟨composed, hcompose, hcomposes⟩ : ∃ composed, e.compose? members = some composed ∧
      Composes members ctx e composed := e.exists_compose he
  have hsame : (composed.evaluate ctx).applicable = ((e.group members).evaluate ctx).applicable :=
    hcomposes.applicable.trans e.applicable_group.symm
  refine ⟨composed, hcompose, hsame, ?_⟩
  intro hpermitted
  rw [Policy.isPermitted_evaluate, Bool.and_eq_true, Bool.not_eq_true'] at hpermitted ⊢
  obtain ⟨hgroup, hnone⟩ := hpermitted
  refine ⟨hsame.trans hgroup, ?_⟩
  rw [denies_group, hgroup, Bool.true_and] at hnone
  -- A denial of the composition would come from a named policy, and the group asks all of these.
  rw [← Bool.not_eq_true]
  intro hcomposed
  obtain ⟨name, hname, hmember⟩ := hcomposes.denies hcomposed
  exact List.any_eq_false.mp hnone name (mem_names_iff.mpr hname) hmember

def entrance : GroupExpr :=
  .or (.policy "staff") (.and (.policy "guest") (.or (.policy "suspended") (.policy "guest")))

def holders (name : String) : Policy :=
  .leaf {
    effect := if name = "suspended" then .deny else .permit
    target := [⟨"user." ++ name ++ "=true", ⟨.user, [name], none⟩, .eq, .literal (.bool true)⟩] }

def holderOf (names : List String) : Context :=
  .ofParts (some (.ofPairs (names.map fun name => (name, .bool true)))) none none none

theorem isPermitted_compose_of_group_entrance :
    entrance.isPositive = true ∧
    ((entrance.group holders).evaluate (holderOf ["guest"])).isPermitted = true ∧
    ∃ composed, entrance.compose? holders = some composed ∧
      (composed.evaluate (holderOf ["guest"])).applicable =
        ((entrance.group holders).evaluate (holderOf ["guest"])).applicable ∧
      (composed.evaluate (holderOf ["guest"])).isPermitted = true := by
  obtain ⟨composed, hcompose, hsame, hpermits⟩ :=
    isPermitted_compose_of_group entrance rfl holders (holderOf ["guest"])
  exact ⟨rfl, rfl, composed, hcompose, hsame, hpermits rfl⟩

/-- Suspended staff are no guests, so the composition does not come to the denial. -/
example :
    ((entrance.group holders).evaluate (holderOf ["staff", "suspended"])).isPermitted = false ∧
    (entrance.compose? holders).any (fun composed =>
      (composed.evaluate (holderOf ["staff", "suspended"])).isPermitted) = true :=
  ⟨rfl, rfl⟩

end GroupExpr

end Abac
