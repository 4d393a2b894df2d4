import Abac.Proofs.Condition.Writing
import Abac.Proofs.GroupMembers
import Abac.Proofs.Noninterference
import Abac.Proofs.Snapshot.Showing

/-!
Groups over a single name. Such a group takes over the result of its member by merging it into an
empty one. Snapshots come through a merge of this kind as they are, and a condition does if every
combinator key of its outermost object holds a list (`Condition.Collects`). A write at a combinator
key leaves a list there, and a write below it an object, so a condition collects as long as no rule
has a combinator key among the segments of a path. Then a group over one name evaluates to what its
member evaluates to, wherever the member applies (`Policy.evaluate_group_of_one`).
-/
namespace Abac

namespace Condition

variable {root : Condition}

theorem collects_empty : Collects ∅ := fun _ _ _ hget => nomatch hget

theorem Collects.setKey (h : Collects root) (key : String) (value : Value) :
    Collects (setKey root key value) := by
  intro other slot hother hget
  by_cases hkey : other = key
  · subst hkey
    rw [get?_setKey_self, written_of_combinator hother] at hget
    rw [← Option.some.inj hget]
    rfl
  · rw [get?_setKey_of_ne root hkey] at hget
    exact h other slot hother hget

/-- A merge keeps a condition collecting, whatever is merged into it. -/
theorem Collects.mergeEntries (h : Collects root) {low : Option String}
    (entries : Entries Value low) : Collects (mergeEntries root entries) := by
  induction entries generalizing root with
  | nil => exact h
  | cons key above value rest ih => exact ih (h.setKey key value)

/-- So does a write at a path that has no combinator key before its end. -/
theorem Collects.assignValue (h : Collects root) {path : List String}
    (hpath : ∀ segment ∈ path.dropLast, isCombinator segment = false) (value : Value) :
    Collects (root.assignValue path value) := by
  match path with
  | [] =>
    cases value with
    | object fields => exact h.mergeEntries fields
    | _ => exact h
  | [key] => exact h.setKey key value
  | key :: next :: rest =>
    intro other slot hother hget
    have hne : other ≠ key := by
      rintro rfl
      exact absurd hother (Bool.eq_false_iff.mp (hpath other List.mem_cons_self))
    rw [get?_assignValue_of_ne root hne] at hget
    exact h other slot hother hget

/-- Only the segments of an attribute can come before the end of a slot. -/
theorem Collects.assign (h : Collects root) {path : List String}
    (hpath : ∀ segment ∈ path, isCombinator segment = false) (key : Option String)
    (comparator : Comparator) (value : Value) :
    Collects (root.assign path key comparator value) := by
  let a : Assignment := ⟨path, key, comparator, value⟩
  have hslot : a.slot.dropLast ⊆ path := by
    cases hkey : key.filter isCombinator with
    | none =>
      have heq : a.slot = path := by simp [a, Assignment.slot, hkey]
      exact heq ▸ List.dropLast_subset path
    | some last =>
      have heq : a.slot = path ++ [last] := by simp [a, Assignment.slot, hkey]
      rw [heq, List.dropLast_concat]
      exact List.Subset.refl path
  change Collects (a.apply root)
  rw [a.apply_eq_assignValue]
  exact h.assignValue (fun segment hsegment => hpath segment (hslot hsegment)) a.payload

end Condition

variable {ctx : Context}

/-- A place binds at its own path or, if it is a whole table, at single keys. -/
theorem Context.dropLast_subset_of_mem_bindings {ref : Reference} {binding : Binding}
    (h : binding ∈ ctx.bindings ref) : binding.1.dropLast ⊆ ref.2 := by
  obtain ⟨ns, segments⟩ := ref
  cases ns with
  | resource =>
    rw [Context.bindings] at h
    cases hvalue : ctx.value? .resource segments with
    | none =>
      rw [hvalue] at h
      exact absurd h List.not_mem_nil
    | some value =>
      rw [hvalue] at h
      cases segments with
      | cons first rest =>
        obtain rfl := List.mem_singleton.mp h
        exact List.dropLast_subset (first :: rest)
      | nil =>
        cases value with
        | object fields =>
          obtain ⟨entry, -, rfl⟩ := List.mem_map.mp h
          exact List.nil_subset []
        | _ => exact absurd h List.not_mem_nil
  | _ => exact absurd h List.not_mem_nil

namespace Clause

open Condition

def HasPlainPaths (clause : Clause) : Prop :=
  ∀ ref ∈ clause.references, ∀ segment ∈ ref.2, isCombinator segment = false

instance (clause : Clause) : Decidable clause.HasPlainPaths :=
  inferInstanceAs (Decidable (∀ ref ∈ clause.references, ∀ segment ∈ ref.2,
    isCombinator segment = false))

theorem HasPlainPaths.collects_contribute {clause : Clause} (h : clause.HasPlainPaths)
    {root : Condition} (hroot : Collects root) : Collects (clause.contribute ctx root) := by
  obtain ⟨hpath, hexpr⟩ := List.forall_mem_cons.mp h
  rw [contribute]
  cases clause.expr.value? ctx with
  | none => exact hroot
  | some value =>
    refine List.foldlRecOn _ _ (hroot.assign hpath clause.path.key clause.comparator value) ?_
    intro condition hcondition binding hbinding
    obtain ⟨ref, href, hmem⟩ := List.mem_flatMap.mp hbinding
    refine hcondition.assignValue (fun segment hsegment => ?_) binding.2
    exact hexpr ref href segment (Context.dropLast_subset_of_mem_bindings hmem hsegment)

end Clause

namespace Leaf

open Condition

theorem collects_evaluate {leaf : Leaf}
    (h : ∀ clause ∈ leaf.condition, clause.onResource = true → clause.HasPlainPaths) :
    Collects (leaf.evaluate ctx).condition := by
  rw [condition_evaluate]
  cases leaf.applies ctx with
  | false => exact collects_empty
  | true =>
    refine List.foldlRecOn _ _ collects_empty fun condition hcondition clause hclause => ?_
    obtain ⟨hmem, hresource⟩ := List.mem_filter.mp hclause
    exact (h clause hmem hresource).collects_contribute hcondition

end Leaf

namespace Evaluation

open Condition

/-- The condition of a combination is merged into an empty one, and so it collects whatever the
parts are. -/
theorem collects_combine (applicable : Bool) (parts : List Evaluation) :
    Collects (combine applicable parts).condition := by
  have hempty : Collects ({} : Evaluation).condition := collects_empty
  refine List.foldlRecOn (motive := fun result => Collects result.condition) parts absorb hempty ?_
  intro result hresult part _
  rw [absorb]
  cases part.applicable with
  | false => exact hresult
  | true => exact hresult.mergeEntries part.condition

/-- Combining an applicable part alone gives it back just when its condition collects. -/
theorem combine_singleton_iff {part : Evaluation} (happlicable : part.applicable = true)
    (heffect : part.effect = some (if part.denies then .deny else .permit)) :
    combine true [part] = part ↔ Collects part.condition := by
  have hcombine : combine true [part] =
      { part with condition := Condition.merge ∅ part.condition } := by
    have hdenies : [part].any denies = part.denies := Bool.or_false _
    unfold combine
    rw [hdenies, List.foldl_cons, List.foldl_nil, absorb, if_pos happlicable,
      Fields.merge_empty_left, Fields.merge_empty_left, if_pos rfl, ← heffect, ← happlicable]
  rw [hcombine, ← merge_empty_left_iff]
  exact ⟨congrArg condition, fun hmerge => by rw [hmerge]⟩

end Evaluation

namespace Policy

open Condition

def soleMember (name : String) (policy : Policy) : Policy := .group (.policy name) [(name, policy)]

theorem group_policy (name : String) (members : String → Policy) :
    (GroupExpr.policy name).group members = soleMember name (members name) :=
  rfl

/-- The condition of a policy collects: that of a node since it is merged, and that of a leaf if its
paths are plain. -/
theorem collects_evaluate {policy : Policy}
    (h : ∀ leaf ∈ policy.leaves, ∀ clause ∈ leaf.condition, clause.onResource = true →
      clause.HasPlainPaths) : Collects (policy.evaluate ctx).condition := by
  cases hnode : policy.isLeaf with
  | false =>
    rw [evaluate_node ctx hnode]
    exact Evaluation.collects_combine _ _
  | true =>
    cases policy with
    | leaf content => exact Leaf.collects_evaluate (h content (List.mem_singleton_self content))
    | _ => cases hnode

/-- Where a policy applies, a group over its name alone evaluates to the same just when the
condition of the policy collects. -/
theorem evaluate_soleMember_iff (name : String) {policy : Policy}
    (happlies : (policy.evaluate ctx).applicable = true) :
    (soleMember name policy).evaluate ctx = policy.evaluate ctx ↔
      Collects (policy.evaluate ctx).condition := by
  have hgroup := (GroupExpr.policy name).evaluate_group (fun _ => policy) ctx
  have happlicable :
      (((GroupExpr.policy name).group fun _ => policy).evaluate ctx).applicable = true :=
    (GroupExpr.policy name).applicable_group.trans happlies
  rw [happlicable] at hgroup
  change (soleMember name policy).evaluate ctx = .combine true [policy.evaluate ctx] at hgroup
  rw [hgroup]
  refine Evaluation.combine_singleton_iff happlies ?_
  rw [Evaluation.denies, effect_evaluate, happlies]
  cases policy.denied ctx <;> rfl

/-- Over a text that is the name of one of its members, a group compiles to the group over this
name alone. The other members have to compile, too. -/
theorem compile_group_policy {source name : String} {policies : Entries Declaration none}
    {declaration : Declaration} {policy : Policy}
    (he : GroupExpr.parse source = .ok (.policy name))
    (hget : policies.get? name = some declaration) (hpolicy : compile declaration = .ok policy)
    (hmembers : ∀ other member, policies.get? other = some member →
      ∃ compiled, compile member = .ok compiled) :
    compile (.group source policies) = .ok (soleMember name policy) := by
  have hnamed : policies.contains name = true := by
    rw [Entries.contains, hget]
    rfl
  have hwellFormed : (Declaration.group source policies).IsWellFormed :=
    ⟨.policy name, he, List.forall_mem_singleton.mpr hnamed⟩
  obtain ⟨group, hgroup⟩ := exists_compile_group_iff.mpr ⟨hwellFormed, hmembers⟩
  obtain ⟨members, hnames, rfl⟩ := exists_members_of_compile he hgroup
  obtain ⟨found, hfound, hcompile⟩ := hnames name List.mem_cons_self
  obtain rfl := Option.some.inj (hfound.symm.trans hget)
  rw [hgroup, group_policy, Except.ok.inj (hcompile.symm.trans hpolicy)]

/-- Where a policy applies, a group over one name that stands for it evaluates to the same, if no
path in a clause on the resource has a combinator key among its segments. So does what a group over
one name compiles to when the policy is declared under this name. -/
theorem evaluate_group_of_one (policy : Policy)
    (hpaths : ∀ leaf ∈ policy.leaves, ∀ clause ∈ leaf.condition, clause.path.ns = .resource →
      clause.HasPlainPaths)
    (ctx : Context) (happlies : (policy.evaluate ctx).applicable = true) :
    (∀ name, (soleMember name policy).evaluate ctx = policy.evaluate ctx) ∧
    ∀ (source name : String) (policies : Entries Declaration none) (declaration : Declaration),
      GroupExpr.parse source = .ok (.policy name) → policies.get? name = some declaration →
      compile declaration = .ok policy →
      (∀ other member, policies.get? other = some member →
        ∃ compiled, compile member = .ok compiled) →
      ∃ group, compile (.group source policies) = .ok group ∧
        group.evaluate ctx = policy.evaluate ctx := by
  have hcollects : Collects (policy.evaluate ctx).condition :=
    collects_evaluate fun leaf hleaf clause hclause hresource =>
      hpaths leaf hleaf clause hclause (of_decide_eq_true hresource)
  have hsole (name : String) : (soleMember name policy).evaluate ctx = policy.evaluate ctx :=
    (evaluate_soleMember_iff name happlies).mpr hcollects
  refine ⟨hsole, fun source name policies declaration he hget hpolicy hmembers => ?_⟩
  exact ⟨_, compile_group_policy he hget hpolicy hmembers, hsole name⟩

def onDesk : Leaf where
  effect := .permit
  condition := [
    ⟨"resource.$or=[{desk: user.desk}, {tray: resource.tray}]", ⟨.resource, [], some "$or"⟩, .eq,
      .array [.object [("desk", .path ⟨.user, ["desk"], none⟩)],
        .object [("tray", .path ⟨.resource, ["tray"], none⟩)]]⟩,
    ⟨"resource.done!=true", ⟨.resource, ["done"], none⟩, .ne, .literal (.bool true)⟩]

def urgentAtNight : Leaf where
  effect := .permit
  target := [⟨"environment.night=true", ⟨.environment, ["night"], none⟩, .eq,
    .literal (.bool true)⟩]
  condition := [⟨"resource.$or={urgent: true}", ⟨.resource, [], some "$or"⟩, .eq,
    .object [("urgent", .literal (.bool true))]⟩]

def readableLetters : Policy :=
  (GroupExpr.or (.policy "desk") (.policy "night")).group fun name =>
    .leaf (if name = "desk" then onDesk else urgentAtNight)

def onDeskRules : LeafDeclaration where
  effect := .permit
  target := []
  condition := ["resource.$or=[{desk: user.desk}, {tray: resource.tray}]", "resource.done!=true"]

def urgentAtNightRules : LeafDeclaration where
  effect := .permit
  target := ["environment.night=true"]
  condition := ["resource.$or={urgent: true}"]

def readableLettersRules : Declaration :=
  .group "desk OR night"
    (Dict.ofList [("desk", .leaf onDeskRules), ("night", .leaf urgentAtNightRules)])

def nightShift : Context :=
  .ofParts (some (.ofPairs [("desk", .string "north")])) none
    (some (.ofPairs [("night", .bool true)])) (some (.ofPairs [("tray", .string "in")]))

theorem compile_readableLettersRules : compile readableLettersRules = .ok readableLetters := by
  have hparse : GroupExpr.parse "desk OR night" = .ok (.or (.policy "desk") (.policy "night")) := by
    cbv
  have hdesk : Leaf.compile onDeskRules = .ok onDesk := by cbv
  have hnight : Leaf.compile urgentAtNightRules = .ok urgentAtNight := by cbv
  have hmembers : compileMembers
      (Dict.ofList [("desk", .leaf onDeskRules), ("night", .leaf urgentAtNightRules)]) =
        .ok (Dict.ofList [("desk", .leaf onDesk), ("night", .leaf urgentAtNight)]) := by
    change (do
      let desk ← (do return Policy.leaf (← Leaf.compile onDeskRules))
      let others ← (do
        let night ← (do return Policy.leaf (← Leaf.compile urgentAtNightRules))
        return Entries.cons "night" _ night .nil)
      return Entries.cons "desk" _ desk others) = _
    rw [hdesk, hnight]
    rfl
  rw [readableLettersRules, compile, hparse, hmembers]
  rfl

/-- The alternatives of both leaves stand in one list, and a group over it adds nothing. -/
theorem evaluate_group_of_one_readableLetters :
    (∀ leaf ∈ readableLetters.leaves, ∀ clause ∈ leaf.condition, clause.path.ns = .resource →
      clause.HasPlainPaths) ∧
    (readableLetters.evaluate nightShift).applicable = true ∧
    (readableLetters.evaluate nightShift).condition.get? "$or" = some (.array [
      .object (Dict.insert ∅ "desk" (.string "north")),
      .object (Dict.insert ∅ "tray" (.string "in")),
      .object (Dict.insert ∅ "urgent" (.bool true))]) ∧
    ∃ group, compile (.group "(letters)" (Dict.insert ∅ "letters" readableLettersRules)) =
        .ok group ∧
      group.evaluate nightShift = readableLetters.evaluate nightShift := by
  have hpaths : ∀ leaf ∈ readableLetters.leaves, ∀ clause ∈ leaf.condition,
      clause.path.ns = .resource → clause.HasPlainPaths := by
    decide
  have happlies : (readableLetters.evaluate nightShift).applicable = true := rfl
  have hparse : GroupExpr.parse "(letters)" = .ok (.policy "letters") := by cbv
  obtain ⟨-, hgroup⟩ := evaluate_group_of_one readableLetters hpaths nightShift happlies
  refine ⟨hpaths, happlies, rfl, hgroup "(letters)" "letters" _ readableLettersRules hparse rfl
    compile_readableLettersRules fun other member hget => ?_⟩
  rw [Dict.get?_insert, Dict.get?_empty, Option.ite_none_right_eq_some] at hget
  exact ⟨_, Option.some.inj hget.2 ▸ compile_readableLettersRules⟩

/-- With a combinator key inside its path, a clause leaves an object under the key, and a group
makes a list of it. -/
example :
    let below : Policy := .leaf {
      effect := .permit
      condition := [⟨"resource.'$or'.open=true", ⟨.resource, ["$or", "open"], none⟩, .eq,
        .literal (.bool true)⟩] }
    (below.evaluate {}).condition.get? "$or" = some (.object (Dict.insert ∅ "open" (.bool true))) ∧
    ((Policy.group (.policy "below") [("below", below)]).evaluate {}).condition.get? "$or" =
      some (.array [.object (Dict.insert ∅ "open" (.bool true))]) :=
  ⟨rfl, rfl⟩

end Policy

end Abac
