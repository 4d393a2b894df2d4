import Abac.Proofs.PolicyTree
import Abac.Proofs.Reading

/-!
A policy sees nothing of a context but the places that it names. Each kind of clause has its list
of references: a target clause and a condition clause on the subject read both of their sides, a
condition clause on the resource reads its right side only. Contexts that agree on the references
of a policy give the same evaluation (`Policy.evaluate_eq_of_agree`).
-/
namespace Abac

variable {ctx ctx' : Context}

namespace Record

theorem readAll_congr (record : Record) {refs : List Reference} (h : ctx.Agree ctx' refs) :
    record.readAll ctx refs = record.readAll ctx' refs := by
  induction refs generalizing record with
  | nil => rfl
  | cons ref rest ih =>
    change (record.read ctx ref.1 ref.2).2.readAll ctx rest =
      (record.read ctx' ref.1 ref.2).2.readAll ctx' rest
    rw [read_congr record h.head, ih _ h.tail]

end Record

namespace Expr

mutual

theorem value?_congr (expr : Expr) (h : ctx.Agree ctx' expr.references) :
    expr.value? ctx = expr.value? ctx' := by
  match expr with
  | .literal _ => rfl
  | .regex _ => rfl
  | .path source => exact h.head
  | .array items => rw [value?, value?, valuesOfItems?_congr items h]
  | .object entries => rw [value?, value?, valuesOfEntries?_congr entries h]
  | .binary op lhs rhs =>
    rw [value?, value?, value?_congr lhs h.left, value?_congr rhs h.right]

theorem valuesOfItems?_congr (items : List Expr) (h : ctx.Agree ctx' (referencesOfItems items)) :
    valuesOfItems? ctx items = valuesOfItems? ctx' items := by
  match items with
  | [] => rfl
  | item :: rest =>
    rw [valuesOfItems?, valuesOfItems?, value?_congr item h.left, valuesOfItems?_congr rest h.right]

theorem valuesOfEntries?_congr (entries : List (String × Expr))
    (h : ctx.Agree ctx' (referencesOfEntries entries)) :
    valuesOfEntries? ctx entries = valuesOfEntries? ctx' entries := by
  match entries with
  | [] => rfl
  | (_, expr) :: rest =>
    rw [valuesOfEntries?, valuesOfEntries?, value?_congr expr h.left,
      valuesOfEntries?_congr rest h.right]

end

theorem evaluate_congr (expr : Expr) (record : Record) (h : ctx.Agree ctx' expr.references) :
    expr.evaluate ctx record = expr.evaluate ctx' record := by
  rw [evaluate_eq, evaluate_eq, value?_congr expr h, Record.readAll_congr record h]

end Expr

namespace Clause

def references (clause : Clause) : List Reference :=
  clause.path.reference :: clause.expr.references

/-- The places that a clause reads as a condition. The left path of a clause on the resource is
written to and not read. -/
def conditionReferences (clause : Clause) : List Reference :=
  if clause.path.ns.isSubject then clause.references else clause.expr.references

theorem test_congr (clause : Clause) (record : Record) (h : ctx.Agree ctx' clause.references) :
    clause.test ctx record = clause.test ctx' record := by
  unfold test
  cases clause.operator? with
  | none => rfl
  | some op =>
    have hfield := Record.read_congr record h.head
    simp only [AttributePath.reference] at hfield
    simp only [hfield, clause.expr.evaluate_congr _ h.tail]

theorem testAll_congr (clauses : List Clause) (record : Record)
    (h : ctx.Agree ctx' (clauses.flatMap references)) :
    testAll ctx record clauses = testAll ctx' record clauses := by
  induction clauses generalizing record with
  | nil => rfl
  | cons clause rest ih =>
    rw [List.flatMap_cons] at h
    rw [testAll, testAll, clause.test_congr record h.left]
    split
    · exact ih _ h.right
    · rfl

end Clause

namespace Leaf

def references (leaf : Leaf) : List Reference :=
  leaf.target.flatMap Clause.references ++ leaf.condition.flatMap Clause.conditionReferences

theorem runCondition_congr (clauses : List Clause) (record : Record) (condition : Condition)
    (h : ctx.Agree ctx' (clauses.flatMap Clause.conditionReferences)) :
    runCondition ctx record condition clauses = runCondition ctx' record condition clauses := by
  induction clauses generalizing record condition with
  | nil => rfl
  | cons clause rest ih =>
    rw [List.flatMap_cons] at h
    have hclause := h.left
    rw [runCondition, runCondition]
    by_cases hsubject : clause.path.ns.isSubject = true
    · rw [Clause.conditionReferences, if_pos hsubject] at hclause
      rw [if_pos hsubject, if_pos hsubject, clause.test_congr record hclause]
      split
      · exact ih _ _ h.right
      · rfl
    · rw [Clause.conditionReferences, if_neg hsubject] at hclause
      rw [if_neg hsubject, if_neg hsubject, clause.expr.evaluate_congr record hclause]
      split
      · exact ih _ _ h.right
      · exact ih _ _ h.right

theorem evaluate_congr (leaf : Leaf) (h : ctx.Agree ctx' leaf.references) :
    leaf.evaluate ctx = leaf.evaluate ctx' := by
  unfold evaluate
  rw [Clause.testAll_congr leaf.target {} h.left]
  simp only [runCondition_congr leaf.condition _ ∅ h.right]

end Leaf

namespace Policy

mutual

def references : Policy → List Reference
  | .leaf content => content.references
  | .composite _ left right => references left ++ references right
  | .group _ members => referencesOfMembers members

def referencesOfMembers : List (String × Policy) → List Reference
  | [] => []
  | (_, policy) :: rest => references policy ++ referencesOfMembers rest

end

theorem references_subset_of_mem {member : String × Policy} {members : List (String × Policy)}
    (h : member ∈ members) : member.2.references ⊆ referencesOfMembers members := by
  induction members with
  | nil => exact absurd h List.not_mem_nil
  | cons first rest ih =>
    rw [referencesOfMembers]
    rcases List.mem_cons.mp h with rfl | hrest
    · exact List.subset_append_left _ _
    · exact List.Subset.trans (ih hrest) (List.subset_append_right _ _)

/-- A policy evaluates to the same result in contexts that agree on its references. -/
theorem evaluate_eq_of_agree (policy : Policy) {ctx ctx' : Context}
    (h : ctx.Agree ctx' policy.references) : policy.evaluate ctx = policy.evaluate ctx' := by
  induction policy with
  | leaf content => exact content.evaluate_congr h
  | composite op left right ihleft ihright =>
    rw [evaluate, evaluate, ihleft h.left, ihright h.right]
  | group expression members ih =>
    have hmembers : evaluateMembers ctx members = evaluateMembers ctx' members := by
      rw [evaluateMembers_eq_map, evaluateMembers_eq_map]
      apply List.map_congr_left
      intro member hmember
      rw [ih member hmember (h.mono (references_subset_of_mem hmember))]
    rw [evaluate, evaluate, hmembers]

def ownOpenRecords : Policy :=
  .group (.and (.policy "own") (.not (.policy "closed")))
    [("own", .composite .and
        (.leaf {
          effect := .permit
          target := [⟨"user.role='staff'", ⟨.user, ["role"], none⟩, .eq,
            .literal (.string "staff")⟩] })
        (.leaf {
          effect := .permit
          condition := [⟨"resource.owner=user.id", ⟨.resource, ["owner"], none⟩, .eq,
            .path ⟨.user, ["id"], none⟩⟩] })),
      ("closed", .leaf {
        effect := .deny
        target := [⟨"resource.state='closed'", ⟨.resource, ["state"], none⟩, .eq,
          .literal (.string "closed")⟩] })]

def staffVisit (theme owner : String) : Context :=
  .ofParts
    (some (.ofPairs [("id", .string "u7"), ("role", .string "staff"), ("theme", .string theme)]))
    none none (some (.ofPairs [("owner", .string owner), ("state", .string "open")]))

/-- The policy names the owner of the resource on the left of a condition only, and so it sees
neither who owns the resource nor the theme of the user. -/
theorem evaluate_ownOpenRecords_eq :
    (staffVisit "dark" "u1").Agree (staffVisit "light" "u2") ownOpenRecords.references ∧
    (staffVisit "dark" "u1").value? .user ["theme"] ≠
      (staffVisit "light" "u2").value? .user ["theme"] ∧
    ownOpenRecords.evaluate (staffVisit "dark" "u1") =
      ownOpenRecords.evaluate (staffVisit "light" "u2") := by
  have hreferences : ownOpenRecords.references =
      [(.user, ["role"]), (.user, ["id"]), (.resource, ["state"])] := by
    rfl
  have hagree :
      (staffVisit "dark" "u1").Agree (staffVisit "light" "u2") ownOpenRecords.references := by
    intro ref href
    simp only [hreferences, List.mem_cons, List.not_mem_nil, or_false] at href
    rcases href with rfl | rfl | rfl <;> rfl
  refine ⟨hagree, ?_, evaluate_eq_of_agree ownOpenRecords hagree⟩
  intro h
  have htheme : Value.string "dark" = Value.string "light" := Option.some.inj h
  simp at htheme

end Policy

end Abac
