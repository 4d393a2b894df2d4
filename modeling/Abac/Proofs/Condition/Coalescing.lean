import Abac.Proofs.Condition.Writing

/-!
What a slot holds after several values were written into it. An atomic value replaces what was
there. A deferred comparison and an operator object are two forms of one thing, a set of operators
with their operands, and writing one over the other takes the operators of both
(`Condition.coalesce_of_isOperatorForm`). Under a combinator key the elements of all values are
collected. In each of the three cases the writes may be grouped in any way
(`Condition.Coalescing`).
-/
namespace Abac

theorem Comparator.ofSymbol?_symbol (c : Comparator) : ofSymbol? c.symbol = some c := by
  cases c <;> rfl

theorem Comparator.symbol_of_ofSymbol? {symbol : String} {c : Comparator}
    (h : ofSymbol? symbol = some c) : c.symbol = symbol := by
  simpa using List.find?_some h

theorem Operator.isCombinator_key (op : Operator) : isCombinator op.key = false := by
  cases op <;> rfl

theorem Operator.isDollarKey_key (op : Operator) : isDollarKey op.key = true := by
  cases op <;> decide

namespace Value

def isAtomic (value : Value) : Bool := !value.isObject && value.deferred?.isNone

theorem deferred?_eq_some_iff {value : Value} {c : Comparator} {operand : Value} :
    value.deferred? = some (c, operand) ↔ c ≠ .eq ∧ value = defer c operand := by
  constructor
  · intro h
    unfold deferred? at h
    split at h
    · next symbol operand' =>
      cases hsymbol : Comparator.ofSymbol? symbol with
      | none => simp [hsymbol] at h
      | some c' =>
        by_cases hc : c' = .eq
        · simp [hsymbol, hc] at h
        · simp only [hsymbol, if_neg hc, Option.some.injEq, Prod.mk.injEq] at h
          obtain ⟨rfl, rfl⟩ := h
          rw [defer, Comparator.symbol_of_ofSymbol? hsymbol]
          exact ⟨hc, rfl⟩
    · cases h
  · rintro ⟨hc, rfl⟩
    simp [deferred?, defer, Comparator.ofSymbol?_symbol, hc]

/-- An atomic value that has the form of a comparison states an equality. -/
theorem eq_of_isAtomic {symbol : String} {operand : Value} {c : Comparator}
    (h : (array [string symbol, operand]).isAtomic = true)
    (hsymbol : Comparator.ofSymbol? symbol = some c) : c = .eq := by
  apply Decidable.byContradiction
  intro hne
  simp [isAtomic, deferred?, hsymbol, hne] at h

theorem deferred?_defer {c : Comparator} (hc : c ≠ .eq) (operand : Value) :
    (defer c operand).deferred? = some (c, operand) :=
  deferred?_eq_some_iff.mpr ⟨hc, rfl⟩

theorem isOperatorForm_defer {c : Comparator} (hc : c ≠ .eq) (operand : Value) :
    (defer c operand).isOperatorForm = true := by
  change (defer c operand).deferred?.isSome = true
  rw [deferred?_defer hc]
  rfl

/-- A value in operator form is a deferred comparison or a non-empty object of operator keys. -/
theorem isOperatorForm_iff {value : Value} :
    value.isOperatorForm = true ↔
      (∃ (c : Comparator) (operand : Value), c ≠ .eq ∧ value = defer c operand) ∨
        ∃ fields : Fields, value = .object fields ∧ fields.isEmpty = false ∧
          fields.allDollar = true := by
  constructor
  · intro h
    unfold isOperatorForm at h
    split at h
    · next fields => exact .inr ⟨fields, rfl, by simpa using h⟩
    · obtain ⟨⟨c, operand⟩, hdeferred⟩ := Option.isSome_iff_exists.mp h
      exact .inl ⟨c, operand, deferred?_eq_some_iff.mp hdeferred⟩
  · rintro (⟨c, operand, hc, rfl⟩ | ⟨fields, rfl, hempty, hdollar⟩)
    · exact isOperatorForm_defer hc operand
    · simp [isOperatorForm, hempty, hdollar]

@[simp] theorem operators_object (fields : Fields) : (Value.object fields).operators = fields := rfl

theorem operators_defer {c : Comparator} (hc : c ≠ .eq) (operand : Value) :
    (defer c operand).operators = Dict.insert ∅ c.operator.key operand := by
  rw [operators, unfoldDeferred, deferred?_defer hc]
  rfl

theorem unfoldDeferred_of_isOperatorForm {value : Value} (h : value.isOperatorForm = true) :
    value.unfoldDeferred = .object value.operators := by
  rcases isOperatorForm_iff.mp h with ⟨c, operand, hc, rfl⟩ | ⟨fields, rfl, -, -⟩
  · rw [operators, unfoldDeferred, deferred?_defer hc]
    rfl
  · rfl

/-- Whether a value constrains an attribute by operators with atomic operands: a deferred
comparison, or an operator object without combinator keys. -/
def IsConstraint (value : Value) : Prop :=
  value.isOperatorForm = true ∧ ∀ key operand, value.operators.get? key = some operand →
    isCombinator key = false ∧ operand.isAtomic = true

/-- A value in operator form with one operator is a constraint if its operand is atomic. -/
theorem isConstraint_of_operators {value : Value} (hform : value.isOperatorForm = true)
    {key : String} {operand : Value} (hoperators : value.operators = Dict.insert ∅ key operand)
    (hkey : isCombinator key = false) (hoperand : operand.isAtomic = true) :
    value.IsConstraint := by
  refine ⟨hform, ?_⟩
  intro other operand' hget
  rw [hoperators, Dict.get?_insert] at hget
  by_cases hother : other = key
  · rw [if_pos hother, Option.some.injEq] at hget
    exact ⟨hother ▸ hkey, hget ▸ hoperand⟩
  · rw [if_neg hother] at hget
    cases hget

theorem isConstraint_defer {c : Comparator} (hc : c ≠ .eq) {operand : Value}
    (hoperand : operand.isAtomic = true) : (defer c operand).IsConstraint :=
  isConstraint_of_operators (isOperatorForm_defer hc operand) (operators_defer hc operand)
    c.operator.isCombinator_key hoperand

theorem isOperatorForm_operator {key : String} (hdollar : isDollarKey key = true)
    (operand : Value) : (Value.object (Dict.insert ∅ key operand)).isOperatorForm = true := by
  change (!false && (isDollarKey key && true)) = true
  rw [hdollar]
  rfl

theorem isConstraint_operator {key : String} (hdollar : isDollarKey key = true)
    (hkey : isCombinator key = false) {operand : Value} (hoperand : operand.isAtomic = true) :
    (Value.object (Dict.insert ∅ key operand)).IsConstraint :=
  isConstraint_of_operators (isOperatorForm_operator hdollar operand) (operators_object _) hkey
    hoperand

theorem isConstraint_object_iff {fields : Fields} :
    (Value.object fields).IsConstraint ↔
      (∃ key operand, fields.get? key = some operand) ∧
        ∀ key operand, fields.get? key = some operand →
          isDollarKey key = true ∧ isCombinator key = false ∧ operand.isAtomic = true := by
  have hform : (Value.object fields).isOperatorForm = true ↔
      fields.isEmpty = false ∧ fields.allDollar = true := by
    simp [isOperatorForm]
  rw [IsConstraint, hform, operators_object, Entries.isEmpty_eq_false_iff, Entries.allDollar_iff]
  constructor
  · rintro ⟨⟨hentry, hdollar⟩, hoperands⟩
    exact ⟨hentry, fun key operand hget => ⟨hdollar key operand hget, hoperands key operand hget⟩⟩
  · rintro ⟨hentry, hoperands⟩
    exact ⟨⟨hentry, fun key operand hget => (hoperands key operand hget).1⟩,
      fun key operand hget => (hoperands key operand hget).2⟩

/-- The operator object that a constraint stands for is a constraint, too. -/
theorem IsConstraint.object_operators {value : Value} (h : value.IsConstraint) :
    (Value.object value.operators).IsConstraint := by
  rcases isOperatorForm_iff.mp h.1 with ⟨c, operand, hc, rfl⟩ | ⟨fields, rfl, -, -⟩
  · have hoperand := h.2 c.operator.key operand
    rw [operators_defer hc, Dict.get?_insert_self] at hoperand
    rw [operators_defer hc]
    exact isConstraint_operator c.operator.isDollarKey_key c.operator.isCombinator_key
      (hoperand rfl).2
  · exact h

end Value

namespace Condition

theorem coalesce_of_isAtomic (slot : Value) {value : Value} (h : value.isAtomic = true) :
    coalesce slot value = value := by
  unfold coalesce
  split
  · next symbol operand =>
    cases hsymbol : Comparator.ofSymbol? symbol with
    | none => rfl
    | some c => simp [Value.eq_of_isAtomic h hsymbol]
  · simp [Value.isAtomic, Value.isObject] at h
  · rfl

theorem coalesce_object_object (existing incoming : Fields) :
    coalesce (.object existing) (.object incoming) = .object (mergeEntries existing incoming) := by
  unfold coalesce
  have hunfold : (Value.object existing).unfoldDeferred = .object existing := rfl
  rw [hunfold, ite_self]

/-- Writing one set of operators over another takes the operators of both, whatever their forms. -/
theorem coalesce_of_isOperatorForm {slot value : Value} (hslot : slot.isOperatorForm = true)
    (hvalue : value.isOperatorForm = true) :
    coalesce slot value = .object (mergeEntries slot.operators value.operators) := by
  rcases Value.isOperatorForm_iff.mp hvalue with ⟨c, operand, hc, rfl⟩ | ⟨fields, rfl, -, -⟩
  · have hkey := c.operator.isCombinator_key
    rw [Value.operators_defer hc, mergeEntries_singleton, setKey, hkey, if_neg Bool.false_ne_true,
      Value.defer, coalesce]
    simp only [Comparator.ofSymbol?_symbol]
    rw [if_pos ⟨hc, hslot⟩]
    rfl
  · rw [coalesce, if_pos hvalue, Value.unfoldDeferred_of_isOperatorForm hslot]
    rfl

/-- The operators of a constraint replace those of the same keys and leave the others. -/
theorem get?_mergeEntries_operators (node : Fields) {value : Value} (hvalue : value.IsConstraint)
    (key : String) :
    (mergeEntries node value.operators).get? key =
      (value.operators.get? key).or (node.get? key) := by
  rw [get?_mergeEntries]
  cases hget : value.operators.get? key with
  | none => rfl
  | some operand =>
    obtain ⟨hkey, hoperand⟩ := hvalue.2 key operand hget
    cases node.get? key with
    | none => simp [written_none hkey]
    | some slot => simp [written_some hkey, coalesce_of_isAtomic slot hoperand]

theorem isConstraint_coalesce {slot value : Value} (hslot : slot.IsConstraint)
    (hvalue : value.IsConstraint) : (coalesce slot value).IsConstraint := by
  rw [coalesce_of_isOperatorForm hslot.1 hvalue.1]
  obtain ⟨-, hold⟩ := Value.isConstraint_object_iff.mp hslot.object_operators
  obtain ⟨⟨first, operand, hfirst⟩, hnew⟩ :=
    Value.isConstraint_object_iff.mp hvalue.object_operators
  have hget := get?_mergeEntries_operators slot.operators hvalue
  refine Value.isConstraint_object_iff.mpr ⟨⟨first, operand, ?_⟩, fun key other hother => ?_⟩
  · rw [hget, hfirst, Option.some_or]
  · rw [hget, Option.or_eq_some_iff] at hother
    rcases hother with h | ⟨-, h⟩
    · exact hnew key other h
    · exact hold key other h

theorem coalesce_assoc {x y z : Value} (hx : x.IsConstraint) (hy : y.IsConstraint)
    (hz : z.IsConstraint) : coalesce x (coalesce y z) = coalesce (coalesce x y) z := by
  have hyz := isConstraint_coalesce hy hz
  have hxy := isConstraint_coalesce hx hy
  rw [coalesce_of_isOperatorForm hx.1 hyz.1, coalesce_of_isOperatorForm hxy.1 hz.1]
  congr 1
  apply Dict.ext
  intro key
  rw [get?_mergeEntries_operators _ hyz, get?_mergeEntries_operators _ hz,
    coalesce_of_isOperatorForm hy.1 hz.1, coalesce_of_isOperatorForm hx.1 hy.1,
    Value.operators_object, Value.operators_object, get?_mergeEntries_operators _ hz,
    get?_mergeEntries_operators _ hy, Option.or_assoc]

/-- The values of a class may be written one after the other under a key, in any grouping: writing
what two writes leave is making both of them. -/
structure Coalescing (key : String) (P : Value → Prop) : Prop where
  keeps : ∀ {old : Option Value} {value : Value}, (∀ slot, old = some slot → P slot) → P value →
    P (written key old value)
  fresh : ∀ (old : Option Value) (value : Value),
    written key old (written key none value) = written key old value
  assoc : ∀ {old : Option Value} {slot value : Value}, (∀ first, old = some first → P first) →
    P slot → P value →
      written key old (written key (some slot) value) =
        written key (some (written key old slot)) value

/-- Lists of alternatives take any values. -/
theorem coalescing_of_combinator {key : String} (hkey : isCombinator key = true) :
    Coalescing key fun _ => True where
  keeps _ _ := trivial
  fresh old value := by simp [written_of_combinator hkey, Value.elements]
  assoc _ _ _ := by simp [written_of_combinator hkey, Value.elements]

/-- Under any other key the values must stay in their class and coalesce associatively. -/
theorem coalescing_of_coalesce {key : String} (hkey : isCombinator key = false) {P : Value → Prop}
    (hkeeps : ∀ {x y : Value}, P x → P y → P (coalesce x y))
    (hassoc : ∀ {x y z : Value}, P x → P y → P z →
      coalesce x (coalesce y z) = coalesce (coalesce x y) z) : Coalescing key P where
  keeps {old value} hold hvalue := by
    cases old with
    | none => rwa [written_none hkey]
    | some slot => exact written_some hkey slot value ▸ hkeeps (hold slot rfl) hvalue
  fresh old value := by rw [written_none hkey]
  assoc {old slot value} hold hslot hvalue := by
    rw [written_some hkey, written_some hkey]
    cases old with
    | none => rw [written_none hkey, written_none hkey]
    | some first =>
      rw [written_some hkey, written_some hkey, hassoc (hold first rfl) hslot hvalue]

theorem coalescing_atomic {key : String} (hkey : isCombinator key = false) :
    Coalescing key fun value => value.isAtomic = true :=
  coalescing_of_coalesce hkey (fun _ hy => by rwa [coalesce_of_isAtomic _ hy])
    fun _ _ hz => by rw [coalesce_of_isAtomic _ hz, coalesce_of_isAtomic _ hz,
      coalesce_of_isAtomic _ hz]

theorem coalescing_constraint {key : String} (hkey : isCombinator key = false) :
    Coalescing key Value.IsConstraint :=
  coalescing_of_coalesce hkey isConstraint_coalesce coalesce_assoc

end Condition

end Abac
