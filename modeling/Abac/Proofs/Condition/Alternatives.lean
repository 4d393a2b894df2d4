import Abac.Proofs.Condition.Writing
import Abac.Proofs.Construction
import Abac.Proofs.DenyOverrides
import Mathlib.Data.List.Basic

/-!
Lists of alternatives. A clause under a combinator key of the outermost object adds its value to the
list there, an array element by element, and nothing else touches the list if dollar keys are no
segments and no resource attributes are bound. Merging two conditions joins their lists. So the list
of a policy holds what the clauses of its contributors add, in the order of evaluation, with nothing
lost, repeated or moved (`Policy.alternatives_concatenated`).
-/
namespace Abac

namespace Condition

/-- What a combinator key holds after values were listed under it, one after the other. -/
def listed : List Value → Option Value
  | [] => none
  | first :: rest => some (.array ((first :: rest).flatMap Value.elements))

variable {key : String} (hkey : isCombinator key = true) {root : Condition} {values : List Value}

theorem elements_listed (values : List Value) :
    (listed values).elim [] Value.elements = values.flatMap Value.elements := by
  cases values <;> rfl

theorem listed_eq_some_iff {slot : Value} :
    listed values = some slot ↔ values ≠ [] ∧ slot = .array (values.flatMap Value.elements) := by
  cases values <;> simp [listed, eq_comm]

include hkey

/-- Writing a value lists it behind the others. -/
theorem written_listed (values : List Value) (value : Value) :
    some (written key (listed values) value) = listed (values ++ [value]) := by
  rw [written_of_combinator hkey, elements_listed]
  cases values <;> simp [listed]

/-- Merging lists the values of the second condition behind those of the first. The list of the
second is an array, so its elements are taken over one by one. -/
theorem get?_merge_listed {other : Condition} {others : List Value}
    (hroot : root.get? key = listed values) (hother : other.get? key = listed others) :
    (root.merge other).get? key = listed (values ++ others) := by
  cases others with
  | nil => rw [get?_merge_of_none hother, hroot, List.append_nil]
  | cons first rest =>
    rw [get?_merge_of_some hother, hroot, written_of_combinator hkey, elements_listed]
    cases values <;> simp [listed, Value.elements]

/-- At the outermost object, a combinator key is written as any key is. -/
theorem assign_combinator (root : Condition) (comparator : Comparator) (value : Value) :
    root.assign [] (some key) comparator value = setKey root key value := by
  rw [setKey, if_pos hkey]
  exact if_pos hkey

end Condition

variable {ctx : Context} {key : String}

namespace Clause

open Condition

def alternative? (ctx : Context) (key : String) (clause : Clause) : Option Value :=
  if clause.path = ⟨.resource, [], some key⟩ then clause.expr.value? ctx else none

/-- A clause on the resource keeps the lists of alternatives in order if it names an attribute or a
combinator key, no segment of its path is a combinator key, and its right side reads no resource
attribute. -/
structure KeepsLists (clause : Clause) : Prop where
  place : clause.path.segments ≠ [] ∨ clause.path.isCombinator = true
  segments : ∀ segment ∈ clause.path.segments, isCombinator segment = false
  unbound : ∀ ref ∈ clause.expr.references, ref.1 ≠ .resource

variable {clause : Clause} (h : clause.KeepsLists)

include h

/-- The assignment of a clause under the key adds to the list, and no other one changes it. -/
theorem KeepsLists.get?_assign (hkey : isCombinator key = true)
    (hresource : clause.onResource = true) (root : Condition) (value : Value) :
    (root.assign clause.path.segments clause.path.key clause.comparator value).get? key =
      if clause.path = ⟨.resource, [], some key⟩ then some (written key (root.get? key) value)
      else root.get? key := by
  obtain ⟨source, ⟨ns, segments, own⟩, comparator, expr⟩ := clause
  obtain rfl : ns = .resource := of_decide_eq_true hresource
  cases segments with
  | cons first rest =>
    have hne : key ≠ first := by
      rintro rfl
      exact absurd hkey (Bool.eq_false_iff.mp (h.segments key List.mem_cons_self))
    have happly := (Assignment.mk (first :: rest) own comparator value).apply_eq_assignValue root
    change root.assign (first :: rest) own comparator value = _ at happly
    rw [happly, Assignment.slot, List.cons_append, get?_assignValue_of_ne root hne, if_neg nofun]
  | nil =>
    cases own with
    | none => exact absurd h.place (by simp [AttributePath.isCombinator])
    | some other =>
      have hother : isCombinator other = true := h.place.resolve_left (· rfl)
      change (root.assign [] (some other) comparator value).get? key = _
      rw [assign_combinator hother]
      by_cases hkeys : key = other
      · subst hkeys
        rw [get?_setKey_self, if_pos rfl]
      · have hpath : (⟨.resource, [], some other⟩ : AttributePath) ≠ ⟨.resource, [], some key⟩ := by
          simpa using Ne.symm hkeys
        rw [get?_setKey_of_ne root hkeys, if_neg hpath]

/-- A clause lists its value behind those that were listed before. -/
theorem KeepsLists.get?_contribute (hkey : isCombinator key = true)
    (hresource : clause.onResource = true) {root : Condition} {values : List Value}
    (hroot : root.get? key = listed values) :
    (clause.contribute ctx root).get? key =
      listed (values ++ (clause.alternative? ctx key).toList) := by
  have hbindings : clause.expr.references.flatMap ctx.bindings = [] := by
    rw [List.flatMap_eq_nil_iff]
    intro ref href
    have hns := h.unbound ref href
    obtain ⟨ns, segments⟩ := ref
    cases ns with
    | resource => exact absurd rfl hns
    | _ => rfl
  rw [contribute, hbindings, alternative?]
  cases clause.expr.value? ctx with
  | none => simp [hroot]
  | some value =>
    change (root.assign _ _ _ value).get? key = _
    rw [h.get?_assign hkey hresource]
    split
    · rw [hroot, written_listed hkey, Option.toList_some]
    · rw [hroot, Option.toList_none, List.append_nil]

end Clause

namespace Leaf

open Condition

def alternatives (ctx : Context) (key : String) (leaf : Leaf) : List Value :=
  leaf.condition.filterMap (Clause.alternative? ctx key)

def KeepsLists (leaf : Leaf) : Prop :=
  ∀ clause ∈ leaf.condition, clause.onResource = true → clause.KeepsLists

theorem get?_foldl_contribute (hkey : isCombinator key = true) {clauses : List Clause}
    (h : ∀ clause ∈ clauses, clause.onResource = true → clause.KeepsLists) {root : Condition}
    {values : List Value} (hroot : root.get? key = listed values) :
    ((clauses.filter Clause.onResource).foldl (Clause.contribute ctx) root).get? key =
      listed (values ++ clauses.filterMap (Clause.alternative? ctx key)) := by
  induction clauses generalizing root values with
  | nil => rw [List.filterMap_nil, List.append_nil]; exact hroot
  | cons clause rest ih =>
    obtain ⟨hclause, hrest⟩ := List.forall_mem_cons.mp h
    rw [List.filter_cons]
    by_cases hresource : clause.onResource = true
    · have hnext : (clause.contribute ctx root).get? key =
          listed (values ++ (clause.alternative? ctx key).toList) :=
        (hclause hresource).get?_contribute hkey hresource hroot
      rw [if_pos hresource, List.foldl_cons, ih hrest hnext, List.append_assoc]
      congr 2
      rw [List.filterMap_cons]
      cases clause.alternative? ctx key <;> rfl
    · have hother : clause.alternative? ctx key = none := by
        apply if_neg
        rintro hpath
        exact hresource (decide_eq_true (hpath ▸ rfl))
      rw [if_neg hresource, ih hrest hroot, List.filterMap_cons, hother]

theorem get?_evaluate (hkey : isCombinator key = true) {leaf : Leaf} (h : leaf.KeepsLists) :
    (leaf.evaluate ctx).condition.get? key =
      listed (if (leaf.evaluate ctx).applicable then leaf.alternatives ctx key else []) := by
  rw [condition_evaluate, applicable_evaluate]
  cases leaf.applies ctx with
  | false => rfl
  | true =>
    have hempty : (∅ : Condition).get? key = listed [] := rfl
    exact get?_foldl_contribute hkey h hempty

end Leaf

namespace Policy

open Condition

/-- The values that are listed under a key by the contributors of a policy, in the order of
evaluation. -/
def alternatives (ctx : Context) (key : String) (policy : Policy) : List Value :=
  (policy.contributors ctx).flatMap (Leaf.alternatives ctx key)

theorem alternatives_node {policy : Policy} (hnode : policy.isLeaf = false) :
    policy.alternatives ctx key = policy.children.flatMap fun child =>
      if (child.evaluate ctx).applicable then child.alternatives ctx key else [] := by
  rw [alternatives, contributors_node ctx hnode, List.flatMap_assoc]
  congr 1
  funext child
  cases (child.evaluate ctx).applicable <;> rfl

/-- Absorbing parts joins the lists of those that apply. -/
theorem get?_foldl_absorb (hkey : isCombinator key = true) {children : List Policy}
    (h : ∀ child ∈ children,
      (child.evaluate ctx).condition.get? key = listed (child.alternatives ctx key))
    {result : Evaluation} {values : List Value}
    (hresult : result.condition.get? key = listed values) :
    ((children.map (evaluate ctx)).foldl Evaluation.absorb result).condition.get? key =
      listed (values ++ children.flatMap fun child =>
        if (child.evaluate ctx).applicable then child.alternatives ctx key else []) := by
  induction children generalizing result values with
  | nil => rw [List.flatMap_nil, List.append_nil]; exact hresult
  | cons child rest ih =>
    obtain ⟨hchild, hrest⟩ := List.forall_mem_cons.mp h
    have hnext : (result.absorb (child.evaluate ctx)).condition.get? key = listed (values ++
        if (child.evaluate ctx).applicable then child.alternatives ctx key else []) := by
      rw [Evaluation.absorb]
      cases (child.evaluate ctx).applicable with
      | false => simpa using hresult
      | true => exact get?_merge_listed hkey hresult hchild
    rw [List.map_cons, List.foldl_cons, ih hrest hnext, List.flatMap_cons, List.append_assoc]

/-- Under a combinator key the condition of a policy holds the list of what its contributors add. -/
theorem get?_evaluate (hkey : isCombinator key = true) {policy : Policy}
    (h : ∀ leaf ∈ policy.leaves, leaf.KeepsLists) :
    (policy.evaluate ctx).condition.get? key = listed (policy.alternatives ctx key) := by
  induction policy using inductionOnChildren with
  | leaf content =>
    have hcontent := h content (List.mem_singleton_self content)
    rw [evaluate, Leaf.get?_evaluate hkey hcontent, alternatives, contributors]
    cases (content.evaluate ctx).applicable <;> simp
  | node policy hnode ih =>
    have hchildren : ∀ child ∈ policy.children,
        (child.evaluate ctx).condition.get? key = listed (child.alternatives ctx key) :=
      fun child hchild =>
        ih child hchild fun leaf hleaf => h leaf (leaves_subset_of_mem_children hchild hleaf)
    rw [evaluate_node ctx hnode, alternatives_node hnode]
    have hempty : ({} : Evaluation).condition.get? key = listed [] := rfl
    exact get?_foldl_absorb hkey hchildren hempty

theorem mem_alternatives_iff {policy : Policy} {value : Value} :
    value ∈ policy.alternatives ctx key ↔ ∃ leaf ∈ policy.contributors ctx,
      ∃ clause ∈ leaf.condition, clause.path = ⟨.resource, [], some key⟩ ∧
        clause.expr.value? ctx = some value := by
  simp only [alternatives, Leaf.alternatives, Clause.alternative?, List.mem_flatMap,
    List.mem_filterMap, Option.ite_none_right_eq_some]

/-- The condition of a constructed policy has a combinator key at its outermost object exactly when
a contributor has a clause that assigns to the key and whose right side has a value. It then holds
there the elements of all these values, by contributors in the order of evaluation and in each by
the order of its clauses, under the two assumptions on the clauses on the resource: no segment of
their paths is a combinator key, and their right sides read no resource attribute. -/
theorem alternatives_concatenated (policy : Policy) (hpolicy : policy.Constructed)
    (hsegments : ∀ leaf ∈ policy.leaves, ∀ clause ∈ leaf.condition, clause.path.ns = .resource →
      ∀ segment ∈ clause.path.segments, isCombinator segment = false)
    (hunbound : ∀ leaf ∈ policy.leaves, ∀ clause ∈ leaf.condition, clause.path.ns = .resource →
      ∀ ref ∈ clause.expr.references, ref.1 ≠ .resource)
    (ctx : Context) (key : String) (hkey : isCombinator key = true) :
    ((∃ slot, (policy.evaluate ctx).condition.get? key = some slot) ↔
      ∃ leaf ∈ policy.contributors ctx, ∃ clause ∈ leaf.condition,
        clause.path = ⟨.resource, [], some key⟩ ∧
          ∃ value, clause.expr.value? ctx = some value) ∧
    ∀ slot, (policy.evaluate ctx).condition.get? key = some slot →
      slot = .array ((policy.contributors ctx).flatMap fun leaf =>
        (leaf.condition.filterMap (Clause.alternative? ctx key)).flatMap Value.elements) := by
  have hleaves : ∀ leaf ∈ policy.leaves, leaf.KeepsLists := by
    intro leaf hleaf clause hclause hresource
    have hns := of_decide_eq_true hresource
    obtain ⟨source, hparse⟩ := hpolicy.exists_parse hleaf hclause
    exact ⟨Rule.attribute_or_combinator_of_parse hparse, hsegments leaf hleaf clause hclause hns,
      hunbound leaf hleaf clause hclause hns⟩
  have hslot : ∀ slot, (policy.evaluate ctx).condition.get? key = some slot ↔
      policy.alternatives ctx key ≠ [] ∧
        slot = .array ((policy.alternatives ctx key).flatMap Value.elements) := by
    rw [get?_evaluate hkey hleaves]
    exact fun slot => listed_eq_some_iff
  refine ⟨⟨?_, ?_⟩, ?_⟩
  · rintro ⟨slot, hget⟩
    obtain ⟨value, hmem⟩ := List.exists_mem_of_ne_nil _ ((hslot slot).mp hget).1
    obtain ⟨leaf, hleaf, clause, hclause, hpath, hvalue⟩ := mem_alternatives_iff.mp hmem
    exact ⟨leaf, hleaf, clause, hclause, hpath, value, hvalue⟩
  · rintro ⟨leaf, hleaf, clause, hclause, hpath, value, hvalue⟩
    have hmem : value ∈ policy.alternatives ctx key :=
      mem_alternatives_iff.mpr ⟨leaf, hleaf, clause, hclause, hpath, hvalue⟩
    exact ⟨_, (hslot _).mpr ⟨List.ne_nil_of_mem hmem, rfl⟩⟩
  · intro slot hget
    rw [(hslot slot).mp hget |>.2, alternatives, List.flatMap_assoc]
    rfl

def listing (source : String) (expr : Expr) : Clause :=
  ⟨source, ⟨.resource, [], some "$or"⟩, .eq, expr⟩

def openOrOwn : Leaf where
  effect := .permit
  condition := [
    listing "resource.$or=[{open: true}, {owner: user.id}]" (.array [
      .object [("open", .literal (.bool true))],
      .object [("owner", .path ⟨.user, ["id"], none⟩)]]),
    ⟨"resource.bin!=true", ⟨.resource, ["bin"], none⟩, .ne, .literal (.bool true)⟩,
    listing "resource.$or={public: true}" (.object [("public", .literal (.bool true))])]

def ofTeam : Leaf where
  effect := .permit
  condition := [
    listing "resource.$or={team: user.team}" (.object [("team", .path ⟨.user, ["team"], none⟩)]),
    listing "resource.$or={by: user.proxy}" (.object [("by", .path ⟨.user, ["proxy"], none⟩)])]

def old : Leaf where
  effect := .permit
  target := [⟨"user.clerk=true", ⟨.user, ["clerk"], none⟩, .eq, .literal (.bool true)⟩]
  condition := [listing "resource.$or={old: true}" (.object [("old", .literal (.bool true))])]

def visibleRecords : Policy :=
  .composite .and (.leaf openOrOwn)
    ((GroupExpr.or (.policy "team") (.and (.policy "old") (.policy "team"))).group fun name =>
      .leaf (if name = "team" then ofTeam else old))

def annOfSales : Context :=
  .ofParts (some (.ofPairs [("id", .string "ann"), ("team", .string "sales")])) none none none

theorem constructed_visibleRecords : visibleRecords.Constructed := by
  have hopenOrOwn : Leaf.compile ⟨.permit, [], ["resource.$or=[{open: true}, {owner: user.id}]",
      "resource.bin!=true", "resource.$or={public: true}"]⟩ = .ok openOrOwn := by cbv
  have hofTeam : Leaf.compile ⟨.permit, [], ["resource.$or={team: user.team}",
      "resource.$or={by: user.proxy}"]⟩ = .ok ofTeam := by cbv
  have hold : Leaf.compile ⟨.permit, ["user.clerk=true"], ["resource.$or={old: true}"]⟩ =
      .ok old := by cbv
  refine .composite .and (.leaf hopenOrOwn) (.group _ fun name _ => ?_)
  split
  · exact .leaf hofTeam
  · exact .leaf hold

/-- The leaf for clerks does not apply, and no proxy is known. -/
theorem alternatives_concatenated_visibleRecords :
    visibleRecords.Constructed ∧
    (∀ leaf ∈ visibleRecords.leaves, ∀ clause ∈ leaf.condition, clause.path.ns = .resource →
      ∀ segment ∈ clause.path.segments, isCombinator segment = false) ∧
    (∀ leaf ∈ visibleRecords.leaves, ∀ clause ∈ leaf.condition, clause.path.ns = .resource →
      ∀ ref ∈ clause.expr.references, ref.1 ≠ .resource) ∧
    isCombinator "$or" = true ∧
    (visibleRecords.evaluate annOfSales).condition.get? "$or" = some (.array [
      .object (Dict.insert ∅ "open" (.bool true)), .object (Dict.insert ∅ "owner" (.string "ann")),
      .object (Dict.insert ∅ "public" (.bool true)),
      .object (Dict.insert ∅ "team" (.string "sales"))]) := by
  have hsegments : ∀ leaf ∈ visibleRecords.leaves, ∀ clause ∈ leaf.condition,
      clause.path.ns = .resource → ∀ segment ∈ clause.path.segments,
        isCombinator segment = false := by decide
  have hunbound : ∀ leaf ∈ visibleRecords.leaves, ∀ clause ∈ leaf.condition,
      clause.path.ns = .resource → ∀ ref ∈ clause.expr.references, ref.1 ≠ .resource := by decide
  obtain ⟨hthere, hslot⟩ := alternatives_concatenated visibleRecords constructed_visibleRecords
    hsegments hunbound annOfSales "$or" rfl
  have hcontributes : openOrOwn ∈ visibleRecords.contributors annOfSales := List.mem_cons_self
  obtain ⟨slot, hget⟩ := hthere.mpr
    ⟨openOrOwn, hcontributes, _, List.mem_cons_self, rfl, _, rfl⟩
  refine ⟨constructed_visibleRecords, hsegments, hunbound, rfl, ?_⟩
  rw [hget, hslot slot hget]
  rfl

end Policy

end Abac
