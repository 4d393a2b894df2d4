import Abac.Policy
import Abac.Proofs.Decimal.Integers

/-!
Integer attributes. An attribute is a binary number inside a policy, whatever it is in JSON. So an
integer comes out as it went in if it has 53 binary digits at most, and as the nearest binary number
if it is longer. The rule that a resource belongs to the user shows both: the user and the condition
of its result hold the identifier of the user in this form (`exists_policy_carrying`). Identifiers
that differ are confused only if both are longer.
-/
namespace Abac

/-- What becomes of an integer on its way through a policy. -/
def carried (n : Int) : Json :=
  if n.natAbs < 2 ^ 53 then .number (.integer n)
  else .number (.decimal (Json.Number.integer n).toFloat)

theorem numberJson_toFloat {n : Int} (hlow : -2 ^ 63 ≤ n) (hhigh : n < 2 ^ 64) :
    Value.numberJson (Json.Number.integer n).toFloat = carried n := by
  rw [Value.numberJson, carried]
  by_cases hsize : n.natAbs < 2 ^ 53
  · rw [if_pos hsize, Decimal.smallInteger?_toFloat hsize]
  · obtain ⟨hnone, hfinite⟩ :=
      Decimal.smallInteger?_toFloat_eq_none (n := n) (by omega) (by omega)
    rw [if_neg hsize, hnone]
    exact if_pos hfinite

/-- Integers that come out as the same JSON are the same, or both are longer and have the same
nearest number. -/
theorem eq_or_of_carried_eq {a b : Int} (h : carried a = carried b) :
    a = b ∨ 2 ^ 53 ≤ a.natAbs ∧ 2 ^ 53 ≤ b.natAbs ∧
      (Json.Number.integer a).toFloat = (Json.Number.integer b).toFloat := by
  rw [carried, carried] at h
  split at h
  · split at h
    · exact .inl (Json.Number.integer.inj (Json.number.inj h))
    · cases Json.number.inj h
  · split at h
    · cases Json.number.inj h
    · exact .inr ⟨by omega, by omega, Json.Number.decimal.inj (Json.number.inj h)⟩

def ownedByUser : LeafDeclaration := ⟨.permit, [], ["resource.owner=user.id"]⟩

def ownedByUserLeaf : Leaf :=
  ⟨.permit, [], [⟨"resource.owner=user.id", ⟨.resource, ["owner"], none⟩, .eq,
    .path ⟨.user, ["id"], none⟩⟩]⟩

theorem compile_ownedByUser :
    Policy.compile (.leaf ownedByUser) = .ok (.leaf ownedByUserLeaf) := by
  cbv

/-- The permission applies, and both the user and the condition hold the identifier. -/
theorem evaluate_ownedByUser {ctx : Context} {n : Int}
    (h : ctx.user.get? "id" = some (.number (.integer n))) :
    (Policy.leaf ownedByUserLeaf).evaluate ctx =
      ⟨true, some .permit, Dict.insert ∅ "id" (.number (Json.Number.integer n).toFloat), ∅,
        Dict.insert ∅ "owner" (.number (Json.Number.integer n).toFloat)⟩ := by
  have hvalue : ctx.value? .user ["id"] = some (.number (Json.Number.integer n).toFloat) := by
    change Option.map Value.ofJson (Option.bind (ctx.user.get? "id") _) = _
    rw [h]
    rfl
  have hread : Record.read {} ctx .user ["id"] =
      (some (.number (Json.Number.integer n).toFloat),
        Record.note {} .user ["id"] (.number (Json.Number.integer n).toFloat)) := by
    rw [Record.read, hvalue]
  have hrun : Leaf.runCondition ctx {} ∅ ownedByUserLeaf.condition =
      (some (Dict.insert ∅ "owner" (.number (Json.Number.integer n).toFloat)),
        ⟨Dict.insert ∅ "id" (.number (Json.Number.integer n).toFloat), ∅, []⟩) := by
    rw [ownedByUserLeaf, Leaf.runCondition, if_neg (by decide), Expr.evaluate, hread]
    rfl
  have htarget : Clause.testAll ctx {} ownedByUserLeaf.target = (true, {}) := rfl
  have hcleared : Record.clearBindings {} = {} := rfl
  simp only [Policy.evaluate, Leaf.evaluate, htarget, hcleared, hrun, if_true]
  rfl

theorem toJson_single (key : String) (x : Float) :
    Fields.toJson (Dict.insert ∅ key (.number x)) = .ofPairs [(key, Value.numberJson x)] :=
  rfl

/-- The permission for the owner compiles, and its result holds an identifier that is an integer of
64 bits as it is if it has 53 binary digits at most, and else as the nearest binary number, both in
the user and in the condition. Two identifiers that differ make the same condition only if neither
has 53 binary digits at most and the same number is nearest to both. -/
theorem exists_policy_carrying :
    ∃ policy, Policy.compile (.leaf ownedByUser) = .ok policy ∧
      (∀ (ctx : Context) (n : Int), -2 ^ 63 ≤ n → n < 2 ^ 64 →
        ctx.user.get? "id" = some (.number (.integer n)) →
        (policy.evaluate ctx).compiled.toJson =
          .ofPairs [("user", .ofPairs [("id", carried n)]),
            ("condition", .ofPairs [("owner", carried n)])]) ∧
      ∀ (ctx ctx' : Context) (a b : Int), -2 ^ 63 ≤ a → a < 2 ^ 64 → -2 ^ 63 ≤ b → b < 2 ^ 64 →
        ctx.user.get? "id" = some (.number (.integer a)) →
        ctx'.user.get? "id" = some (.number (.integer b)) → a ≠ b →
        Fields.toJson (policy.evaluate ctx).condition =
          Fields.toJson (policy.evaluate ctx').condition →
        2 ^ 53 ≤ a.natAbs ∧ 2 ^ 53 ≤ b.natAbs ∧
          (Json.Number.integer a).toFloat = (Json.Number.integer b).toFloat := by
  refine ⟨_, compile_ownedByUser, ?_, ?_⟩
  · intro ctx n hlow hhigh hid
    rw [evaluate_ownedByUser hid, ← numberJson_toFloat hlow hhigh]
    rfl
  · intro ctx ctx' a b halow hahigh hblow hbhigh ha hb hne hsame
    rw [evaluate_ownedByUser ha, evaluate_ownedByUser hb, toJson_single, toJson_single,
      numberJson_toFloat halow hahigh, numberJson_toFloat hblow hbhigh] at hsame
    have hcarried : some (carried a) = some (carried b) := congrArg (Json.field? "owner") hsame
    exact (eq_or_of_carried_eq (Option.some.inj hcarried)).resolve_left hne

def Context.identified (n : Int) : Context := { user := Dict.insert ∅ "id" (.number (.integer n)) }

theorem condition_identified (n : Int) :
    Fields.toJson ((Policy.leaf ownedByUserLeaf).evaluate (.identified n)).condition =
      .ofPairs [("owner", Value.numberJson (Json.Number.integer n).toFloat)] := by
  rw [evaluate_ownedByUser (n := n) rfl, toJson_single]

/-- The least integer with 54 binary digits that is odd has the same nearest number as the one
before it. -/
theorem toFloat_odd : (Json.Number.integer 9007199254740993).toFloat =
    (Json.Number.integer 9007199254740992).toFloat := by
  decide +kernel

theorem exists_policy_carrying_identified :
    ∃ policy, Policy.compile (.leaf ownedByUser) = .ok policy ∧
      (policy.evaluate (.identified (-7))).compiled.toJson =
        .ofPairs [("user", .ofPairs [("id", .number (.integer (-7)))]),
          ("condition", .ofPairs [("owner", .number (.integer (-7)))])] ∧
      2 ^ 53 ≤ (9007199254740993 : Int).natAbs ∧ 2 ^ 53 ≤ (9007199254740992 : Int).natAbs := by
  obtain ⟨policy, hcompile, hcarried, hconfused⟩ := exists_policy_carrying
  have hpolicy : .leaf ownedByUserLeaf = policy :=
    Except.ok.inj (compile_ownedByUser.symm.trans hcompile)
  have hsame : Fields.toJson (policy.evaluate (.identified 9007199254740993)).condition =
      Fields.toJson (policy.evaluate (.identified 9007199254740992)).condition := by
    rw [← hpolicy, condition_identified, condition_identified, toFloat_odd]
  obtain ⟨hodd, heven, -⟩ := hconfused (.identified 9007199254740993) (.identified 9007199254740992)
    9007199254740993 9007199254740992 (by decide) (by decide) (by decide) (by decide) rfl rfl
    (by decide) hsame
  exact ⟨policy, hcompile, hcarried (.identified (-7)) (-7) (by decide) (by decide) rfl, hodd,
    heven⟩

/-- An identifier of 54 binary digits does not come out as it is, and it is confused with the one
before it. -/
theorem not_carried_odd :
    ∃ policy, Policy.compile (.leaf ownedByUser) = .ok policy ∧
      Fields.toJson (policy.evaluate (.identified 9007199254740993)).condition ≠
        .ofPairs [("owner", .number (.integer 9007199254740993))] ∧
      Fields.toJson (policy.evaluate (.identified 9007199254740993)).condition =
        Fields.toJson (policy.evaluate (.identified 9007199254740992)).condition := by
  refine ⟨_, compile_ownedByUser, ?_, ?_⟩
  · intro hexact
    rw [condition_identified, numberJson_toFloat (by decide) (by decide)] at hexact
    have howner : some (carried 9007199254740993) = some (.number (.integer 9007199254740993)) :=
      congrArg (Json.field? "owner") hexact
    rw [carried, if_neg (by decide)] at howner
    cases Json.number.inj (Option.some.inj howner)
  · rw [condition_identified, condition_identified, toFloat_odd]

end Abac
