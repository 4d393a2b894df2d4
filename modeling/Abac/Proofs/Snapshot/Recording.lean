import Abac.Proofs.LeafMeaning
import Abac.Proofs.Noninterference

/-!
What the evaluation of a leaf reads, and what it leaves recorded. A target clause that fails ends
the reading there, and so does a condition clause on the subject; a clause with an unknown operator
key reads nothing. The places read make one list (`Leaf.readings`), and the snapshots of an
evaluation are those of a record that has read this list from its beginning
(`Leaf.snapshot_evaluate`).
-/
namespace Abac

/-- The snapshot of a namespace. What is read of the action and of the environment is not
recorded. -/
def Record.snapshot (record : Record) : Namespace → Fields
  | .user => record.user
  | .resource => record.resource
  | .action | .environment => ∅

def Evaluation.snapshot (e : Evaluation) : Namespace → Fields
  | .user => e.user
  | .resource => e.resource
  | .action | .environment => ∅

namespace Record

variable (record : Record) (ctx : Context)

@[simp] theorem snapshot_clearBindings : record.clearBindings.snapshot = record.snapshot := by
  funext ns
  cases ns <;> rfl

/-- Reading a present attribute inserts its value into the snapshot of its namespace. -/
theorem snapshot_read_of_some {ns : Namespace} {segments : List String} {value : Value}
    (h : ctx.value? ns segments = some value) (other : Namespace) :
    (record.read ctx ns segments).2.snapshot other = record.snapshot other ∨
      other = ns ∧ (record.read ctx ns segments).2.snapshot other =
        (record.snapshot other).insertAt segments value := by
  unfold read
  rw [h]
  cases ns <;> cases other <;> simp [note, snapshot]

theorem read_of_none {ns : Namespace} {segments : List String}
    (h : ctx.value? ns segments = none) : (record.read ctx ns segments).2 = record := by
  unfold read
  rw [h]

theorem clearBindings_read (ref : Reference) :
    (record.clearBindings.read ctx ref.1 ref.2).2.clearBindings =
      (record.read ctx ref.1 ref.2).2.clearBindings := by
  obtain ⟨ns, segments⟩ := ref
  unfold read
  cases ns <;> cases ctx.value? _ segments <;> rfl

/-- Bindings make no difference to what is recorded besides them. -/
theorem clearBindings_readAll (refs : List Reference) :
    (record.clearBindings.readAll ctx refs).clearBindings =
      (record.readAll ctx refs).clearBindings := by
  induction refs generalizing record with
  | nil => rfl
  | cons ref rest ih =>
    change ((record.clearBindings.read ctx ref.1 ref.2).2.readAll ctx rest).clearBindings =
      ((record.read ctx ref.1 ref.2).2.readAll ctx rest).clearBindings
    rw [← ih, clearBindings_read, ih]

end Record

variable (ctx : Context)

namespace Clause

def readings (clause : Clause) : List Reference :=
  if clause.operator?.isSome then clause.references else []

def readingsOfAll (ctx : Context) : List Clause → List Reference
  | [] => []
  | clause :: rest => clause.readings ++ if clause.holds ctx then readingsOfAll ctx rest else []

theorem snd_test (record : Record) (clause : Clause) :
    (clause.test ctx record).2 = record.readAll ctx clause.readings := by
  unfold test readings
  cases clause.operator? with
  | none => rfl
  | some op =>
    simp only [Expr.evaluate_eq]
    rfl

theorem test_eq (record : Record) (clause : Clause) :
    clause.test ctx record = (clause.holds ctx, record.readAll ctx clause.readings) :=
  Prod.ext (fst_test ctx record clause) (snd_test ctx record clause)

theorem snd_testAll (record : Record) (clauses : List Clause) :
    (testAll ctx record clauses).2 = record.readAll ctx (readingsOfAll ctx clauses) := by
  induction clauses generalizing record with
  | nil => rfl
  | cons clause rest ih =>
    rw [testAll, test_eq, readingsOfAll, Record.readAll_append]
    cases clause.holds ctx with
    | true => exact ih _
    | false => rfl

theorem readings_subset (clause : Clause) : clause.readings ⊆ clause.references := by
  unfold readings
  split
  · exact List.Subset.refl _
  · exact List.nil_subset _

theorem readingsOfAll_subset (clauses : List Clause) :
    readingsOfAll ctx clauses ⊆ clauses.flatMap references := by
  induction clauses with
  | nil => exact List.Subset.refl _
  | cons clause rest ih =>
    rw [readingsOfAll, List.flatMap_cons]
    apply List.append_subset.mpr ⟨List.subset_append_of_subset_left _ clause.readings_subset, ?_⟩
    split
    · exact List.subset_append_of_subset_right _ ih
    · exact List.nil_subset _

end Clause

namespace Leaf

def conditionReadings (ctx : Context) : List Clause → List Reference
  | [] => []
  | clause :: rest =>
    if clause.path.ns.isSubject then
      clause.readings ++ if clause.holds ctx then conditionReadings ctx rest else []
    else clause.expr.references ++ conditionReadings ctx rest

def readings (leaf : Leaf) (ctx : Context) : List Reference :=
  Clause.readingsOfAll ctx leaf.target ++
    if leaf.target.all (Clause.holds ctx) then conditionReadings ctx leaf.condition else []

/-- A run drops the bindings between the clauses and keeps the rest of what it read. -/
theorem clearBindings_runCondition (record : Record) (condition : Condition)
    (clauses : List Clause) :
    (runCondition ctx record condition clauses).2.clearBindings =
      (record.readAll ctx (conditionReadings ctx clauses)).clearBindings := by
  induction clauses generalizing record condition with
  | nil => rfl
  | cons clause rest ih =>
    rw [runCondition, conditionReadings]
    by_cases hsubject : clause.path.ns.isSubject = true
    · rw [if_pos hsubject, if_pos hsubject, Clause.test_eq, Record.readAll_append]
      cases clause.holds ctx with
      | true => exact (ih _ _).trans (Record.clearBindings_readAll _ ctx _)
      | false => rfl
    · rw [if_neg hsubject, if_neg hsubject, Expr.evaluate_eq, Record.readAll_append]
      cases clause.expr.value? ctx with
      | none => exact (ih _ _).trans (Record.clearBindings_readAll _ ctx _)
      | some value => exact (ih _ _).trans (Record.clearBindings_readAll _ ctx _)

/-- The snapshots of an evaluation come of reading, whether the leaf applies or not. -/
theorem snapshot_evaluate (leaf : Leaf) (ns : Namespace) :
    (leaf.evaluate ctx).snapshot ns = (Record.readAll ctx {} (leaf.readings ctx)).snapshot ns := by
  unfold evaluate
  rw [readings, Record.readAll_append, ← Clause.snd_testAll, ← Clause.fst_testAll ctx {}]
  rcases Clause.testAll ctx {} leaf.target with ⟨matched, record⟩
  cases matched with
  | false => cases ns <;> rfl
  | true =>
    -- Snapshots do not show bindings, so it is enough to know the record up to these.
    have hrun := clearBindings_runCondition ctx record.clearBindings ∅ leaf.condition
    rw [Record.clearBindings_readAll] at hrun
    simp only [if_true]
    rw [← Record.snapshot_clearBindings, ← hrun, Record.snapshot_clearBindings]
    rcases runCondition ctx record.clearBindings ∅ leaf.condition with ⟨condition, after⟩
    cases condition <;> cases ns <;> rfl

theorem conditionReadings_subset (clauses : List Clause) :
    conditionReadings ctx clauses ⊆ clauses.flatMap Clause.conditionReferences := by
  induction clauses with
  | nil => exact List.Subset.refl _
  | cons clause rest ih =>
    rw [conditionReadings, List.flatMap_cons, Clause.conditionReferences]
    split
    · apply List.append_subset.mpr ⟨List.subset_append_of_subset_left _ clause.readings_subset, ?_⟩
      split
      · exact List.subset_append_of_subset_right _ ih
      · exact List.nil_subset _
    · exact List.append_subset.mpr
        ⟨List.subset_append_left _ _, List.subset_append_of_subset_right _ ih⟩

/-- An evaluation reads nothing but what the leaf names. -/
theorem readings_subset (leaf : Leaf) : leaf.readings ctx ⊆ leaf.references := by
  apply List.append_subset.mpr
  constructor
  · exact List.subset_append_of_subset_left _ (Clause.readingsOfAll_subset ctx leaf.target)
  · split
    · exact List.subset_append_of_subset_right _ (conditionReadings_subset ctx leaf.condition)
    · exact List.nil_subset _

end Leaf

end Abac
