import Abac.Proofs.Condition.Writing
import Mathlib.Data.List.Basic
import Mathlib.Data.List.Pairwise

/-!
Writes that are independent of each other. A write changes the last key of its path alone, and what
it leaves there depends on what stood there (`Condition.assignValue_eq_alterAt`). So two
assignments at slots neither of which lies above the other may be made in either order, also where
both go through a value that has to give place to an object (`Assignment.apply_comm`), and
assignments that are independent in pairs may be made in any order
(`Assignment.foldl_apply_of_perm`).
-/
namespace Abac

namespace Condition

/-- Writes under different keys of an object may be made in either order. -/
theorem setKey_comm (node : Fields) {a b : String} (hne : a ≠ b) (x y : Value) :
    setKey (setKey node a x) b y = setKey (setKey node b y) a x := by
  simp only [setKey_eq]
  exact Fields.alter_comm node hne (fun old => written a old x) fun old => written b old y

/-- Writes at paths neither of which lies above the other may be made in either order. -/
theorem assignValue_comm {first second : List String} (hbelow : ¬first <+: second)
    (habove : ¬second <+: first) (root : Condition) (x y : Value) :
    (root.assignValue first x).assignValue second y =
      (root.assignValue second y).assignValue first x := by
  have hfirst : first ≠ [] := fun hnil => hbelow (hnil ▸ List.nil_prefix)
  have hsecond : second ≠ [] := fun hnil => habove (hnil ▸ List.nil_prefix)
  obtain ⟨parents, a, rfl⟩ := (List.eq_nil_or_concat' first).resolve_left hfirst
  obtain ⟨others, b, rfl⟩ := (List.eq_nil_or_concat' second).resolve_left hsecond
  simp only [assignValue_eq_alterAt]
  exact Fields.alterAt_comm hbelow habove root _ _

end Condition

namespace Assignment

def Independent (a b : Assignment) : Prop := ¬a.slot <+: b.slot ∧ ¬b.slot <+: a.slot

instance (a b : Assignment) : Decidable (Independent a b) := inferInstanceAs (Decidable (_ ∧ _))

instance : Std.Symm Independent := ⟨fun _ _ h => ⟨h.2, h.1⟩⟩

/-- Independent assignments may be made in either order. -/
theorem apply_comm (a b : Assignment) (h : Independent a b) (root : Condition) :
    b.apply (a.apply root) = a.apply (b.apply root) := by
  simp only [apply_eq_assignValue]
  exact Condition.assignValue_comm h.1 h.2 root a.payload b.payload

def shippable : Assignment where
  path := ["article", "size"]
  comparator := .gte
  value := .string "b"

def widthGiven : Assignment where
  path := ["article", "size", "width"]
  key := some "$gt"
  value := .string "d"

def sizeChoices : Assignment where
  path := ["article", "size"]
  key := some "$or"
  value := .array [.string "m", .string "l"]

/-- Both writes go through the bound on the size, and whichever is the first takes it away. -/
theorem apply_comm_sizeChoices :
    Independent widthGiven sizeChoices ∧
    (shippable.apply ∅).at? ["article", "size"] = some (.defer .gte (.string "b")) ∧
    sizeChoices.apply (widthGiven.apply (shippable.apply ∅)) =
      widthGiven.apply (sizeChoices.apply (shippable.apply ∅)) := by
  have hindependent : Independent widthGiven sizeChoices := by decide
  exact ⟨hindependent, rfl, apply_comm widthGiven sizeChoices hindependent (shippable.apply ∅)⟩

/-- Assignments that are independent of each other may be made in any order. -/
theorem foldl_apply_of_perm {assignments others : List Assignment}
    (hindependent : assignments.Pairwise Independent) (hperm : assignments.Perm others)
    (root : Condition) :
    assignments.foldl (fun root a => a.apply root) root =
      others.foldl (fun root a => a.apply root) root := by
  refine hperm.foldl_eq' (fun a ha b hb root => ?_) root
  by_cases hab : a = b
  · rw [hab]
  · obtain ⟨hbelow, habove⟩ := hindependent.forall ha hb hab
    simp only [apply_eq_assignValue]
    exact Condition.assignValue_comm hbelow habove root a.payload b.payload

end Assignment

end Abac
