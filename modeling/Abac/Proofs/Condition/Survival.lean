import Abac.Proofs.Condition.Reaching
import Abac.Proofs.LeafMeaning

/-!
What becomes of the constraint of a clause when the resource attributes that its right side read are
bound. The clause writes first and the bindings write over it, so the last one wins: a clause that
reads its own attribute loses its constraint to the value it read (`Leaf.constraint_lost`). A
binding spares the constraint if it lies off the way to the attribute, if what it brings there goes
together with the form that the constraint has, or if it lies below a constraint that stands as an
object (`Condition.Spares`). When all bindings of a clause spare its constraint, the condition
carries it after the clause, and the operator key holds what the clause has written there unless a
binding writes to that key (`Leaf.constraint_survives`).
-/
namespace Abac

namespace Entries

variable {α : Type} {low : Option String}

theorem contains_of_get? {entries : Entries α low} {key : String} {value : α}
    (h : entries.get? key = some value) : entries.contains key = true := by
  rw [contains, h, Option.isSome_some]

theorem exists_of_contains {entries : Entries α low} {key : String}
    (h : entries.contains key = true) : ∃ value, entries.get? key = some value :=
  Option.isSome_iff_exists.mp h

end Entries

theorem Dict.contains_insert {α : Type} (dict : Dict α) (key other : String) (value : α) :
    (dict.insert key value).contains other = (other == key || dict.contains other) := by
  rw [Entries.contains, Entries.contains, Dict.get?_insert]
  by_cases h : other = key <;> simp [h]

namespace Value

theorem isOperatorForm_object_iff {fields : Fields} :
    (Value.object fields).isOperatorForm = true ↔
      (∃ key, fields.contains key = true) ∧
        ∀ key, fields.contains key = true → isDollarKey key = true := by
  have hform : (Value.object fields).isOperatorForm = true ↔
      fields.isEmpty = false ∧ fields.allDollar = true := by
    simp [isOperatorForm]
  rw [hform, Entries.isEmpty_eq_false_iff, Entries.allDollar_iff]
  constructor
  · rintro ⟨⟨key, value, hget⟩, hdollar⟩
    refine ⟨⟨key, Entries.contains_of_get? hget⟩, fun other hother => ?_⟩
    obtain ⟨slot, hslot⟩ := Entries.exists_of_contains hother
    exact hdollar other slot hslot
  · rintro ⟨⟨key, hkey⟩, hdollar⟩
    obtain ⟨value, hget⟩ := Entries.exists_of_contains hkey
    exact ⟨⟨key, value, hget⟩, fun other slot hslot =>
      hdollar other (Entries.contains_of_get? hslot)⟩

/-- The operators of a value in operator form, as an object, are in operator form. -/
theorem isOperatorForm_object_operators {value : Value} (h : value.isOperatorForm = true) :
    (Value.object value.operators).isOperatorForm = true := by
  rcases isOperatorForm_iff.mp h with ⟨c, operand, hc, rfl⟩ | ⟨fields, rfl, -, -⟩
  · rw [operators_defer hc]
    exact isOperatorForm_operator c.operator.isDollarKey_key operand
  · exact h

end Value

namespace Condition

theorem contains_mergeEntries (node : Fields) {low : Option String} (entries : Entries Value low)
    (key : String) :
    (mergeEntries node entries).contains key = (entries.contains key || node.contains key) := by
  rw [Entries.contains, Entries.contains, get?_mergeEntries]
  cases entries.get? key <;> rfl

/-- A key that holds something still does after a write, and the same unless the write begins with
the key. -/
theorem exists_get?_assignValue {root : Condition} {key : String} {held : Value}
    (h : root.get? key = some held) (parents : List String) (last : String) (value : Value) :
    ∃ after, (root.assignValue (parents ++ [last]) value).get? key = some after ∧
      (¬[key] <+: parents ++ [last] → after = held) := by
  have hinsert : ∀ (first : String) (rest : List String) (new : Value),
      ∃ after, (root.insert first new).get? key = some after ∧
        (¬[key] <+: first :: rest → after = held) := by
    intro first rest new
    by_cases hkey : key = first
    · subst hkey
      exact ⟨new, Dict.get?_insert_self _ _ _, fun hapart =>
        absurd (List.cons_prefix_cons.mpr ⟨rfl, List.nil_prefix⟩) hapart⟩
    · exact ⟨held, by rw [Dict.get?_insert_of_ne _ _ hkey, h], fun _ => rfl⟩
  cases parents with
  | nil =>
    rw [List.nil_append, assignValue_singleton, setKey_eq]
    exact hinsert last [] _
  | cons first parents =>
    rw [List.cons_append, assignValue_cons]
    exact hinsert first (parents ++ [last]) _

/-- A deferred comparison joins a slot in operator form and replaces any other value. -/
theorem coalesce_defer (slot : Value) {c : Comparator} (hc : c ≠ .eq) (operand : Value) :
    coalesce slot (.defer c operand) =
      if slot.isOperatorForm then
        .object (mergeEntries slot.operators (Dict.insert ∅ c.operator.key operand))
      else .defer c operand := by
  by_cases hslot : slot.isOperatorForm = true
  · have hdefer := Value.isOperatorForm_defer hc operand
    rw [if_pos hslot, coalesce_of_isOperatorForm hslot hdefer, Value.operators_defer hc]
  · rw [if_neg hslot, Value.defer, coalesce]
    simp only [Comparator.ofSymbol?_symbol]
    rw [if_neg fun h => hslot h.2]

/-- An object of one key is written over what the slot holds under the key. A key of an operator
finds a deferred comparison under the key of its operator. -/
theorem exists_coalesce_singleton (slot : Value) {key : String} (hkey : isCombinator key = false)
    (operand : Value) :
    ∃ fields : Fields, coalesce slot (.object (Dict.insert ∅ key operand)) = .object fields ∧
      fields.get? key = some (written key
        ((if isDollarKey key then slot.operators else slot.fields).get? key) operand) := by
  have hform : (Value.object (Dict.insert ∅ key operand)).isOperatorForm = isDollarKey key :=
    (Bool.true_and _).trans (Bool.and_true _)
  have hfields : (if isDollarKey key then slot.operators else slot.fields) =
      (if isDollarKey key then slot.unfoldDeferred else slot).fields := by
    split <;> rfl
  rw [hfields]
  unfold coalesce
  rw [hform]
  cases (if isDollarKey key then slot.unfoldDeferred else slot) with
  | object existing =>
    refine ⟨setKey existing key operand, rfl, ?_⟩
    exact get?_setKey_self existing key operand
  | _ =>
    refine ⟨Dict.insert ∅ key operand, rfl, ?_⟩
    exact (Dict.get?_insert_self _ _ _).trans (congrArg some (written_none hkey operand).symm)

/-- The forms in which a value states operators: with operators alone, deferred or not, or with
operators among the fields of an object. -/
inductive Form where
  | operators | object

/-- Whether a value is of a form; an operator object is of both. -/
def Form.Takes : Form → Value → Prop
  | operators, value => value.isOperatorForm = true
  | object, value => value.isObject = true

/-- A binding spares a constraint of a form at an attribute if it is apart from the attribute, if it
is the attribute or above it, no key of a list of alternatives is met from its end on, and its value
leads there through objects and has there nothing or a value of the form, or if it is below an
attribute that holds an object. -/
inductive Spares (form : Form) (place : List String) : Binding → Prop
  | apart {path : List String} {value : Value} (hbelow : ¬path <+: place)
      (habove : ¬place <+: path) : Spares form place (path, value)
  | above {path rest : List String} {value : Value} (hpath : path ++ rest = place)
      (hplain : ∀ segment ∈ path.getLast?.toList ++ rest, isCombinator segment = false)
      (hvalue : value.Fits form.Takes rest) : Spares form place (path, value)
  | below {path rest : List String} {value : Value} (hpath : path = place ++ rest)
      (hrest : rest ≠ []) (hform : form = .object) : Spares form place (path, value)

/-- Whether a binding writes to a key at an attribute: it is at the key or below it, or it is the
attribute or above it and its value has something for the key there. -/
inductive WritesTo (place : List String) (key : String) : Binding → Prop
  | below {path : List String} {value : Value} (hpath : place ++ [key] <+: path) :
      WritesTo place key (path, value)
  | above {path rest : List String} {value inner operand : Value} (hpath : path ++ rest = place)
      (hvalue : value.at? rest = some inner) (hinner : inner.operators.get? key = some operand) :
      WritesTo place key (path, value)

theorem Form.exists_coalesce {form : Form} {slot value : Value} (hslot : form.Takes slot)
    (hvalue : form.Takes value) :
    coalesce slot value = .object (mergeEntries slot.operators value.operators) ∧
      form.Takes (coalesce slot value) := by
  cases form with
  | operators =>
    have hmerged := coalesce_of_isOperatorForm hslot hvalue
    refine ⟨hmerged, ?_⟩
    obtain ⟨-, hold⟩ := Value.isOperatorForm_object_iff.mp
      (Value.isOperatorForm_object_operators hslot)
    obtain ⟨⟨first, hfirst⟩, hnew⟩ := Value.isOperatorForm_object_iff.mp
      (Value.isOperatorForm_object_operators hvalue)
    rw [hmerged]
    refine Value.isOperatorForm_object_iff.mpr ⟨⟨first, ?_⟩, fun key hkey => ?_⟩
    · rw [contains_mergeEntries, hfirst, Bool.true_or]
    · rw [contains_mergeEntries, Bool.or_eq_true] at hkey
      rcases hkey with h | h
      · exact hnew key h
      · exact hold key h
  | object =>
    cases slot with
    | object existing =>
      cases value with
      | object incoming =>
        rw [coalesce_object_object]
        exact ⟨rfl, rfl⟩
      | _ => exact Bool.noConfusion hvalue
    | _ => exact Bool.noConfusion hslot

end Condition

namespace Clause

open Condition

def operatorKey (clause : Clause) : String := clause.path.key.getD clause.comparator.operator.key

/-- Whether a clause states an operator: a comparator other than equality, or an operator key that
is no combinator. -/
def StatesOperator (clause : Clause) : Prop :=
  match clause.path.key with
  | none => clause.comparator ≠ .eq
  | some key => isCombinator key = false

/-- What a slot holds for the operator of a clause, as far as the clause is written over it. A
comparison replaces a slot that is not in operator form. -/
def operatorBefore (clause : Clause) (slot : Value) : Option Value :=
  match clause.path.key with
  | none => if slot.isOperatorForm then slot.operators.get? clause.operatorKey else none
  | some key => (if isDollarKey key then slot.operators else slot.fields).get? key

/-- What the operator key holds when a clause has been assigned: its operand, written over what the
key held. -/
def heldOn (clause : Clause) (root : Condition) (operand : Value) : Value :=
  written clause.operatorKey ((root.at? clause.path.segments).bind clause.operatorBefore) operand

/-- A slot carries the constraint of a clause if it is the comparison with the operand or an object
with the operator key. What is held is the operand, or what the object has under the key. -/
def CarriedBy (clause : Clause) (operand held slot : Value) : Prop :=
  (clause.path.key = none ∧ slot = .defer clause.comparator operand ∧ held = operand) ∨
    ∃ fields : Fields, slot = .object fields ∧ fields.get? clause.operatorKey = some held

variable {clause : Clause} {operand held slot : Value}

theorem CarriedBy.get?_operators (hclause : clause.StatesOperator)
    (h : clause.CarriedBy operand held slot) :
    slot.operators.get? clause.operatorKey = some held := by
  rcases h with ⟨hkey, rfl, rfl⟩ | ⟨fields, rfl, hget⟩
  · rw [StatesOperator, hkey] at hclause
    rw [Value.operators_defer hclause, operatorKey, hkey, Option.getD_none, Dict.get?_insert_self]
  · exact hget

/-- Values of one form leave the constraint where they are written over it, and what it holds unless
they hold something for its operator. -/
theorem CarriedBy.exists_coalesce (hclause : clause.StatesOperator)
    (h : clause.CarriedBy operand held slot) {form : Form} {value : Value}
    (hslot : form.Takes slot) (hvalue : form.Takes value) :
    ∃ after, clause.CarriedBy operand after (coalesce slot value) ∧
      (value.operators.get? clause.operatorKey = none → after = held) := by
  have hmerged := get?_mergeEntries slot.operators value.operators clause.operatorKey
  rw [h.get?_operators hclause] at hmerged
  rw [(Form.exists_coalesce hslot hvalue).1]
  cases hnew : value.operators.get? clause.operatorKey with
  | none =>
    rw [hnew] at hmerged
    exact ⟨held, .inr ⟨_, rfl, hmerged⟩, fun _ => rfl⟩
  | some new =>
    rw [hnew] at hmerged
    exact ⟨_, .inr ⟨_, rfl, hmerged⟩, fun hnone => nomatch hnone⟩

/-- Right after its own assignment the condition carries the constraint of a clause. -/
theorem exists_at?_assign (hclause : clause.StatesOperator) {parents : List String} {last : String}
    (hpath : clause.path.segments = parents ++ [last]) (hlast : isCombinator last = false)
    (root : Condition) (operand : Value) :
    ∃ slot, (root.assign clause.path.segments clause.path.key clause.comparator operand).at?
      clause.path.segments = some slot ∧
      clause.CarriedBy operand (clause.heldOn root operand) slot := by
  unfold StatesOperator at hclause
  unfold Condition.assign CarriedBy heldOn operatorBefore operatorKey
  cases hkey : clause.path.key with
  | none =>
    rw [hkey] at hclause
    have hplain := clause.comparator.operator.isCombinator_key
    change ∃ slot, (root.assignValue clause.path.segments
      (if clause.comparator = .eq then operand else .defer clause.comparator operand)).at?
        clause.path.segments = some slot ∧ _
    rw [if_neg hclause, hpath, at?_assignValue_self]
    refine ⟨_, rfl, ?_⟩
    cases root.at? (parents ++ [last]) with
    | none => exact .inl ⟨rfl, written_none hlast _, written_none hplain _⟩
    | some old =>
      rw [written_some hlast, coalesce_defer old hclause, Option.bind_some]
      split
      · exact .inr ⟨_, rfl, get?_setKey_self _ _ _⟩
      · exact .inl ⟨rfl, rfl, written_none hplain _⟩
  | some key =>
    rw [hkey] at hclause
    change ∃ slot, (if isCombinator key then _ else
      root.assignValue clause.path.segments (.object (Dict.insert ∅ key operand))).at?
        clause.path.segments = some slot ∧ _
    rw [if_neg (Bool.eq_false_iff.mp hclause), hpath, at?_assignValue_self]
    refine ⟨_, rfl, .inr ?_⟩
    cases root.at? (parents ++ [last]) with
    | none =>
      refine ⟨_, written_none hlast _, (Dict.get?_insert_self _ _ _).trans ?_⟩
      exact congrArg some (written_none hclause operand).symm
    | some old =>
      rw [written_some hlast]
      exact exists_coalesce_singleton old hclause operand

/-- A binding that spares the constraint leaves it in the condition, and what it holds unless the
binding writes to the operator key. -/
theorem exists_at?_assignValue (hclause : clause.StatesOperator) {form : Form}
    {place : List String} (hplace : place ≠ []) {binding : Binding}
    (hspares : Spares form place binding) {root : Condition}
    (hat : root.at? place = some slot) (hslot : form.Takes slot)
    (hcarried : clause.CarriedBy operand held slot) :
    ∃ after, (root.assignValue binding.1 binding.2).at? place = some after ∧
      form.Takes after ∧ ∃ held', clause.CarriedBy operand held' after ∧
        (¬WritesTo place clause.operatorKey binding → held' = held) := by
  cases hspares with
  | @apart path value hbelow habove =>
    rcases List.eq_nil_or_concat path with rfl | ⟨parents, last, hconcat⟩
    · exact absurd List.nil_prefix hbelow
    · rw [List.concat_eq_append] at hconcat
      subst hconcat
      rw [at?_assignValue_of_incomparable parents last hbelow habove]
      exact ⟨slot, hat, hslot, held, hcarried, fun _ => rfl⟩
  | @above path rest value hpath hplain hvalue =>
    -- what the value has at the attribute, and what it lacks there if it writes elsewhere
    have hfits : value.Fits (fun inner => form.Takes inner ∧
        (¬WritesTo place clause.operatorKey (path, value) →
          inner.operators.get? clause.operatorKey = none)) rest :=
      hvalue.and_at? fun inner hinner hapart =>
        Option.eq_none_iff_forall_ne_some.mpr fun _ hget => hapart (.above hpath hinner hget)
    subst hpath
    refine exists_at?_assignValue_above (Q := fun slot => form.Takes slot ∧
      ∃ held', clause.CarriedBy operand held' slot ∧
        (¬WritesTo (path ++ rest) clause.operatorKey (path, value) → held' = held))
      ?_ path hplain hplace hat ⟨hslot, held, hcarried, fun _ => rfl⟩ hfits
    rintro slot inner ⟨hslot, held', hcarried, hsame⟩ ⟨hinner, hlacks⟩
    obtain ⟨after, hafter, hkept⟩ := hcarried.exists_coalesce hclause hslot hinner
    exact ⟨(Form.exists_coalesce hslot hinner).2, after, hafter,
      fun hapart => (hkept (hlacks hapart)).trans (hsame hapart)⟩
  | @below path rest value hpath hrest hform =>
    subst hform
    rcases List.eq_nil_or_concat rest with rfl | ⟨parents, last, hconcat⟩
    · exact absurd rfl hrest
    · rw [List.concat_eq_append] at hconcat
      subst hconcat hpath
      cases slot with
      | object fields =>
        obtain ⟨after, hafter, hkept⟩ :=
          exists_get?_assignValue (hcarried.get?_operators hclause) parents last value
        refine ⟨_, at?_assignValue_below hat parents last value, rfl, after,
          .inr ⟨_, rfl, hafter⟩, fun hapart => hkept fun hbegins => hapart (.below ?_)⟩
        exact (List.prefix_append_right_inj place).mpr hbegins
      | _ => exact Bool.noConfusion hslot

/-- Bindings that spare the constraint leave it there, one after the other. -/
theorem exists_at?_foldl (hclause : clause.StatesOperator) {form : Form}
    {place : List String} (hplace : place ≠ []) {bindings : List Binding}
    (hspares : ∀ binding ∈ bindings, Spares form place binding) {root : Condition}
    (hat : root.at? place = some slot) (hslot : form.Takes slot)
    (hcarried : clause.CarriedBy operand held slot) :
    ∃ after held', (bindings.foldl
        (fun condition binding => Condition.assignValue condition binding.1 binding.2) root).at?
          place = some after ∧
      clause.CarriedBy operand held' after ∧
      ((∀ binding ∈ bindings, ¬WritesTo place clause.operatorKey binding) → held' = held) := by
  induction bindings generalizing root slot held with
  | nil => exact ⟨slot, held, hat, hcarried, fun _ => rfl⟩
  | cons binding rest ih =>
    obtain ⟨hbinding, hrest⟩ := List.forall_mem_cons.mp hspares
    obtain ⟨after, hafter, hform, held', hstill, hfirst⟩ :=
      exists_at?_assignValue hclause hplace hbinding hat hslot hcarried
    obtain ⟨last, held'', hlast, hcarried', hothers⟩ := ih hrest hafter hform hstill
    refine ⟨last, held'', hlast, hcarried', fun hapart => ?_⟩
    obtain ⟨hapart, haparts⟩ := List.forall_mem_cons.mp hapart
    exact (hothers haparts).trans (hfirst hapart)

end Clause

namespace Leaf

/-- The leaf with the first of its condition clauses only. Its evaluation ends where that of the
whole leaf has come to after these clauses. -/
def upTo (leaf : Leaf) (count : Nat) : Leaf :=
  { leaf with condition := leaf.condition.take count }

/-- The condition of a whole leaf is what its other clauses make of the condition that its first
ones have made. -/
theorem condition_evaluate_upTo (leaf : Leaf) {ctx : Context} (count : Nat)
    (happlies : (leaf.evaluate ctx).applicable = true) :
    (leaf.evaluate ctx).condition =
      ((leaf.condition.drop count).filter Clause.onResource).foldl (Clause.contribute ctx)
        ((leaf.upTo count).evaluate ctx).condition := by
  rw [applicable_evaluate] at happlies
  have hfirst : (leaf.upTo count).applies ctx = true := by
    rw [applies_iff] at happlies ⊢
    exact ⟨happlies.1, fun clause hclause => happlies.2 clause (List.mem_of_mem_take hclause)⟩
  rw [condition_evaluate, condition_evaluate, if_pos happlies, if_pos hfirst, resourceCondition,
    resourceCondition, ← List.foldl_append, ← List.filter_append]
  change _ = (List.filter _ (leaf.condition.take count ++ leaf.condition.drop count)).foldl _ _
  rw [List.take_append_drop]

/-- A clause on the resource adds its contribution to what the clauses before it have made. -/
theorem condition_evaluate_upTo_succ (leaf : Leaf) {ctx : Context} {count : Nat} {clause : Clause}
    (hclause : leaf.condition[count]? = some clause) (hresource : clause.path.ns = .resource)
    (hreached : ((leaf.upTo count).evaluate ctx).applicable = true) :
    ((leaf.upTo (count + 1)).evaluate ctx).condition =
      clause.contribute ctx ((leaf.upTo count).evaluate ctx).condition := by
  have hmore : (leaf.upTo (count + 1)).condition = (leaf.upTo count).condition ++ [clause] := by
    rw [upTo, List.take_add_one, hclause]
    rfl
  have honResource : clause.onResource = true := decide_eq_true hresource
  rw [applicable_evaluate] at hreached
  have hnext : (leaf.upTo (count + 1)).applies ctx = true := by
    rw [applies_iff] at hreached ⊢
    refine ⟨hreached.1, fun other hother hsubject => ?_⟩
    rw [hmore, List.mem_append, List.mem_singleton] at hother
    rcases hother with hother | rfl
    · exact hreached.2 other hother hsubject
    · exact absurd hresource hsubject
  rw [condition_evaluate, condition_evaluate, if_pos hnext, if_pos hreached, resourceCondition,
    resourceCondition, hmore, List.filter_append, List.foldl_append]
  simp [honResource]

def boundedByItsLast : Clause :=
  ⟨"resource.range.$lte=resource.range.last", ⟨.resource, ["range"], some "$lte"⟩, .eq,
    .path ⟨.resource, ["range", "last"], none⟩⟩

def staffWithinRange : Leaf where
  effect := .permit
  condition :=
    [⟨"user.role='staff'", ⟨.user, ["role"], none⟩, .eq, .literal (.string "staff")⟩,
      boundedByItsLast]

def rangedContext : Context :=
  .ofParts (some (.ofPairs [("role", .string "staff")])) none none
    (some (.ofPairs [("range", .ofPairs [("first", .string "b"), ("last", .string "m")])]))

def differsFromItself : Clause :=
  ⟨"resource.a!=resource.a", ⟨.resource, ["a"], none⟩, .ne, .path ⟨.resource, ["a"], none⟩⟩

def contradictory : Leaf where
  effect := .permit
  condition := [differsFromItself]

def plainContext : Context := .ofParts none none none (some (.ofPairs [("a", .string "x")]))

def aboveOne : Clause :=
  ⟨"resource.'$or'>1", ⟨.resource, ["$or"], none⟩, .gt, .literal (.number 1)⟩

def otherThanFive : Clause :=
  ⟨"resource.'$or'!=5", ⟨.resource, ["$or"], none⟩, .ne, .literal (.number 5)⟩

def boundedTwice : Leaf where
  effect := .permit
  condition := [aboveOne, otherThanFive]

end Leaf

end Abac
