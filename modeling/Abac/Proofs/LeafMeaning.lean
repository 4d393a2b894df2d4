import Abac.Policy
import Abac.Proofs.Reading

/-!
The meaning of a leaf, clause by clause. Whether a clause holds is a question to the context alone,
and so is what a clause on the resource contributes to a condition: its own constraint, and then
the present resource attributes of its right side, bound in reading order. An evaluation hands one
record from clause to clause; since the bindings in it are dropped after each clause, what one
clause has read never shows in another (`Leaf.evaluate_eq_meaning`).
-/
namespace Abac

variable {ctx : Context}

namespace Clause

/-- Whether a clause holds in a context: it tests with a known operator, its right side has a value
and its left side passes the test. -/
def holds (ctx : Context) (clause : Clause) : Bool :=
  clause.operator?.any fun op =>
    (clause.expr.value? ctx).any fun operand =>
      op.holds (ctx.value? clause.path.ns clause.path.segments) operand

def onResource (clause : Clause) : Bool := clause.path.ns = .resource

/-- A condition with what a clause on the resource adds to it. Without a value for the right side it
adds nothing, and else its own constraint and one for each resource attribute that the right side
reads and the context has. -/
def contribute (ctx : Context) (condition : Condition) (clause : Clause) : Condition :=
  match clause.expr.value? ctx with
  | some value =>
    (clause.expr.references.flatMap ctx.bindings).foldl
      (fun condition binding => condition.assignValue binding.1 binding.2)
      (condition.assign clause.path.segments clause.path.key clause.comparator value)
  | none => condition

theorem onResource_eq_not_isSubject (clause : Clause) :
    clause.onResource = !clause.path.ns.isSubject := by
  unfold onResource
  cases clause.path.ns <;> rfl

theorem fst_test (ctx : Context) (record : Record) (clause : Clause) :
    (clause.test ctx record).1 = clause.holds ctx := by
  unfold test holds
  cases clause.operator? with
  | none => rfl
  | some op =>
    simp only [Expr.evaluate_eq, Record.fst_read]
    rfl

theorem fst_testAll (ctx : Context) (record : Record) (clauses : List Clause) :
    (testAll ctx record clauses).1 = clauses.all (holds ctx) := by
  induction clauses generalizing record with
  | nil => rfl
  | cons clause rest ih =>
    have htest := fst_test ctx record clause
    rw [testAll, List.all_cons, ← htest]
    rcases clause.test ctx record with ⟨matched, after⟩
    cases matched with
    | true => exact ih after
    | false => rfl

end Clause

namespace Leaf

/-- The run through the condition clauses, seen from a record without bindings: it ends with a
condition when every clause on the subject holds, and that condition is made of the contributions
of the clauses on the resource. -/
theorem fst_runCondition (ctx : Context) (record : Record) (condition : Condition)
    (clauses : List Clause) (hbindings : record.bindings = []) :
    (runCondition ctx record condition clauses).1 =
      if clauses.all (fun clause => clause.onResource || clause.holds ctx) then
        some ((clauses.filter Clause.onResource).foldl (Clause.contribute ctx) condition)
      else none := by
  induction clauses generalizing record condition with
  | nil => rfl
  | cons clause rest ih =>
    have hside := clause.onResource_eq_not_isSubject
    rw [runCondition, List.all_cons, List.filter_cons]
    by_cases hsubject : clause.path.ns.isSubject = true
    · have htest := clause.fst_test ctx record
      rw [hsubject] at hside
      rw [if_pos hsubject, hside, ← htest]
      rcases clause.test ctx record with ⟨matched, after⟩
      cases matched with
      | true => exact ih after.clearBindings condition rfl
      | false => rfl
    · rw [Bool.not_eq_true] at hsubject
      rw [hsubject] at hside
      rw [hsubject, hside, Expr.evaluate_eq]
      -- The record comes without bindings, so it leaves with those of this clause only.
      have hread : (record.readAll ctx clause.expr.references).bindings =
          clause.expr.references.flatMap ctx.bindings := by
        rw [Record.bindings_readAll, hbindings, List.nil_append]
      cases hvalue : clause.expr.value? ctx with
      | none =>
        have hstep : clause.contribute ctx condition = condition := by
          rw [Clause.contribute, hvalue]
        simpa [hstep] using
          ih (record.readAll ctx clause.expr.references).clearBindings condition rfl
      | some value =>
        have hstep : clause.constrain condition value
            (record.readAll ctx clause.expr.references).bindings =
            clause.contribute ctx condition := by
          rw [hread, Clause.contribute, hvalue]
          rfl
        simpa [hstep] using ih (record.readAll ctx clause.expr.references).clearBindings
          (clause.contribute ctx condition) rfl

def applies (leaf : Leaf) (ctx : Context) : Bool :=
  leaf.target.all (Clause.holds ctx) &&
    leaf.condition.all fun clause => clause.onResource || clause.holds ctx

def resourceCondition (leaf : Leaf) (ctx : Context) : Condition :=
  (leaf.condition.filter Clause.onResource).foldl (Clause.contribute ctx) ∅

/-- An evaluation in one equation, up to the attributes that were read. -/
theorem exists_evaluate_eq (leaf : Leaf) (ctx : Context) :
    ∃ user resource, leaf.evaluate ctx =
      if leaf.applies ctx then ⟨true, some leaf.effect, user, resource, leaf.resourceCondition ctx⟩
      else ⟨false, none, user, resource, ∅⟩ := by
  have htarget := Clause.fst_testAll ctx {} leaf.target
  unfold evaluate applies
  rw [← htarget]
  rcases Clause.testAll ctx {} leaf.target with ⟨matched, record⟩
  cases matched with
  | false => exact ⟨record.user, record.resource, rfl⟩
  | true =>
    have hrun := fst_runCondition ctx record.clearBindings ∅ leaf.condition rfl
    rcases hresult : runCondition ctx record.clearBindings ∅ leaf.condition with ⟨result, after⟩
    rw [hresult] at hrun
    change result = _ at hrun
    simp only [if_true, Bool.true_and, hresult]
    refine ⟨after.user, after.resource, ?_⟩
    cases hsubject : leaf.condition.all fun clause => clause.onResource || clause.holds ctx with
    | true =>
      rw [hrun, hsubject]
      rfl
    | false =>
      rw [hrun, hsubject]
      rfl

theorem applicable_evaluate (leaf : Leaf) (ctx : Context) :
    (leaf.evaluate ctx).applicable = leaf.applies ctx := by
  obtain ⟨user, resource, heq⟩ := leaf.exists_evaluate_eq ctx
  rw [heq]
  cases leaf.applies ctx <;> rfl

theorem effect_evaluate (leaf : Leaf) (ctx : Context) :
    (leaf.evaluate ctx).effect = if leaf.applies ctx then some leaf.effect else none := by
  obtain ⟨user, resource, heq⟩ := leaf.exists_evaluate_eq ctx
  rw [heq]
  cases leaf.applies ctx <;> rfl

theorem condition_evaluate (leaf : Leaf) (ctx : Context) :
    (leaf.evaluate ctx).condition = if leaf.applies ctx then leaf.resourceCondition ctx else ∅ := by
  obtain ⟨user, resource, heq⟩ := leaf.exists_evaluate_eq ctx
  rw [heq]
  cases leaf.applies ctx <;> rfl

theorem applies_iff (leaf : Leaf) (ctx : Context) :
    leaf.applies ctx = true ↔ (∀ clause ∈ leaf.target, clause.holds ctx = true) ∧
      ∀ clause ∈ leaf.condition, clause.path.ns ≠ .resource → clause.holds ctx = true := by
  unfold applies
  rw [Bool.and_eq_true, List.all_eq_true, List.all_eq_true]
  refine and_congr Iff.rfl (forall_congr' fun clause => forall_congr' fun _ => ?_)
  rw [Bool.or_eq_true, Clause.onResource, decide_eq_true_iff, Decidable.or_iff_not_imp_left]

end Leaf

end Abac
