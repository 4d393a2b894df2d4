import Abac.Proofs.Condition.Coalescing
import Abac.Proofs.Condition.Independence
import Mathlib.Data.List.Nodup

/-!
Objects of operators, as a whole and taken apart. An object of operators is written over the
operators that its attribute holds, each under its own key (`Condition.setKey_operators`), and one
operator alone is written in the same way. So an equality with the whole object makes the condition
that its operators make one after the other, in any order (`Condition.assign_eq_foldl_operators`).
-/
namespace Abac

/-- The keys of entries differ, so entries under one key are the same entry. -/
theorem Entries.eq_of_mem_toList {α : Type} {low : Option String} {entries : Entries α low}
    {a b : String × α} (ha : a ∈ entries.toList) (hb : b ∈ entries.toList) (hkey : a.1 = b.1) :
    a = b :=
  List.inj_on_of_nodup_map (entries.pairwise_keys.imp fun hlt => String.ne_of_lt hlt) ha hb hkey

namespace Fields

/-- Changes at the end of one path are made to the object there, one after the other. -/
theorem foldl_modifyAt {α : Type} (change : Fields → α → Fields) (items : List α) (root : Fields)
    (first : Fields → Fields) (path : List String) :
    items.foldl (fun root item => root.modifyAt (fun node => change node item) path)
        (root.modifyAt first path) =
      root.modifyAt (fun node => items.foldl change (first node)) path := by
  induction items generalizing first with
  | nil => rfl
  | cons item rest ih => rw [List.foldl_cons, modifyAt_modifyAt, ih]; rfl

end Fields

namespace Condition

def IsOperatorKey (key : String) : Prop := isDollarKey key = true ∧ isCombinator key = false

structure AreOperators (fields : Fields) : Prop where
  nonempty : fields.isEmpty = false
  keys : ∀ key operand, fields.get? key = some operand → IsOperatorKey key

/-- The operators that a key holds, or the fields of a plain object there. -/
def held (old : Option Value) : Fields := old.elim ∅ Value.operators

theorem AreOperators.isOperatorKey {fields : Fields} (h : AreOperators fields)
    {entry : String × Value} (hentry : entry ∈ fields.toList) : IsOperatorKey entry.1 := by
  have hkey : entry.1 ∈ fields.keys := List.mem_map_of_mem hentry
  obtain ⟨operand, hget⟩ := Option.isSome_iff_exists.mp ((fields.mem_keys_iff entry.1).mp hkey)
  exact h.keys entry.1 operand hget

theorem AreOperators.toList_ne_nil {fields : Fields} (h : AreOperators fields) :
    fields.toList ≠ [] := by
  have hnonempty := h.nonempty
  cases fields with
  | nil => cases hnonempty
  | cons key above value rest => exact List.cons_ne_nil _ _

theorem areOperators_singleton {key : String} (hkey : IsOperatorKey key) (operand : Value) :
    AreOperators (Dict.insert ∅ key operand) where
  nonempty := rfl
  keys other slot hget := by
    rw [Dict.get?_insert] at hget
    split at hget
    · next hother => exact hother ▸ hkey
    · exact nomatch hget

/-- A rule with an operator key writes an object of one operator. -/
theorem assign_operator {key : String} (hkey : IsOperatorKey key) (root : Condition)
    (path : List String) (comparator : Comparator) (operand : Value) :
    root.assign path (some key) comparator operand =
      root.assignValue path (.object (Dict.insert ∅ key operand)) :=
  if_neg (Bool.eq_false_iff.mp hkey.2)

variable {last : String} (hlast : isCombinator last = false) {fields : Fields}

include hlast

/-- An object of operators takes over the operators that its key holds. -/
theorem written_operators (h : AreOperators fields) (old : Option Value) :
    written last old (.object fields) = .object (mergeEntries (held old) fields) := by
  have hform : (Value.object fields).isOperatorForm = true :=
    Value.isOperatorForm_iff.mpr (.inr ⟨fields, rfl, h.nonempty, fields.allDollar_iff.mpr
      fun key operand hget => (h.keys key operand hget).1⟩)
  have hempty : mergeEntries ∅ fields = fields :=
    merge_empty_left_iff.mpr fun key slot hkey hget =>
      absurd hkey (Bool.eq_false_iff.mp (h.keys key slot hget).2)
  cases old with
  | none =>
    rw [written_none hlast, held, Option.elim_none, hempty]
  | some slot =>
    rw [written_some hlast, coalesce, if_pos hform, held, Option.elim_some, Value.operators]
    cases slot.unfoldDeferred with
    | object existing => rfl
    | _ => exact congrArg Value.object hempty.symm

theorem setKey_operators (h : AreOperators fields) (node : Fields) :
    setKey node last (.object fields) =
      node.insert last (.object (mergeEntries (held (node.get? last)) fields)) := by
  rw [setKey_eq, written_operators hlast h]

omit hlast

theorem mergeEntries_eq_foldl (node : Fields) {low : Option String}
    (entries : Entries Value low) :
    mergeEntries node entries =
      entries.toList.foldl (fun node entry => setKey node entry.1 entry.2) node := by
  induction entries generalizing node with
  | nil => rfl
  | cons key above value rest ih => rw [mergeEntries_cons, ih, Entries.toList, List.foldl_cons]

/-- The entries of an object may be written in any order. -/
theorem foldl_setKey_of_perm {entries : List (String × Value)} (hentries : entries.Perm fields.toList)
    (node : Fields) :
    entries.foldl (fun node entry => setKey node entry.1 entry.2) node =
      mergeEntries node fields := by
  rw [mergeEntries_eq_foldl]
  refine hentries.foldl_eq' (fun a ha b hb node => ?_) node
  by_cases hkey : a.1 = b.1
  · rw [Entries.eq_of_mem_toList (hentries.mem_iff.mp ha) (hentries.mem_iff.mp hb) hkey]
  · exact setKey_comm node hkey a.2 b.2

include hlast

/-- Single operators that are written under a key are written into the object there. -/
theorem foldl_setKey_operators {entries : List (String × Value)}
    (hkeys : ∀ entry ∈ entries, IsOperatorKey entry.1) (node : Fields) (fields : Fields) :
    entries.foldl (fun node entry => setKey node last (.object (Dict.insert ∅ entry.1 entry.2)))
        (node.insert last (.object fields)) =
      node.insert last
        (.object (entries.foldl (fun fields entry => setKey fields entry.1 entry.2) fields)) := by
  induction entries generalizing fields with
  | nil => rfl
  | cons entry rest ih =>
    obtain ⟨hkey, hrest⟩ := List.forall_mem_cons.mp hkeys
    rw [List.foldl_cons, setKey_operators hlast (areOperators_singleton hkey entry.2),
      Dict.get?_insert_self, Dict.insert_insert, mergeEntries_singleton, ih hrest, List.foldl_cons]
    rfl

/-- A row of single operators leaves what the object of all of them leaves. -/
theorem foldl_setKey_operators_of_perm (h : AreOperators fields) {first : String × Value}
    {rest : List (String × Value)} (hentries : (first :: rest).Perm fields.toList)
    (hkeys : ∀ entry ∈ first :: rest, IsOperatorKey entry.1) (node : Fields) :
    rest.foldl (fun node entry => setKey node last (.object (Dict.insert ∅ entry.1 entry.2)))
        (setKey node last (.object (Dict.insert ∅ first.1 first.2))) =
      setKey node last (.object fields) := by
  obtain ⟨hfirst, hrest⟩ := List.forall_mem_cons.mp hkeys
  rw [setKey_operators hlast (areOperators_singleton hfirst first.2), mergeEntries_singleton,
    foldl_setKey_operators hlast hrest, setKey_operators hlast h, ← foldl_setKey_of_perm hentries,
    List.foldl_cons]

omit hlast

/-- An equality with an object of operators makes the same condition as its operators, assigned one
by one in any order. -/
theorem assign_eq_foldl_operators (root : Condition) (path : List String) (hpath : path ≠ [])
    (hlast : isCombinator (path.getLast hpath) = false) (fields : Fields)
    (hfields : AreOperators fields) (entries : List (String × Value))
    (hentries : entries.Perm fields.toList) (comparator : String → Comparator) :
    root.assign path none .eq (.object fields) =
      entries.foldl (fun root entry =>
        root.assign path (some entry.1) (comparator entry.1) entry.2) root := by
  obtain ⟨parents, last, hconcat⟩ := (List.eq_nil_or_concat path).resolve_left hpath
  rw [List.concat_eq_append] at hconcat
  subst hconcat
  rw [List.getLast_concat] at hlast
  have hkeys : ∀ entry ∈ entries, IsOperatorKey entry.1 :=
    fun entry hentry => hfields.isOperatorKey (hentries.mem_iff.mp hentry)
  have hone : ∀ (root : Condition), ∀ entry ∈ entries,
      root.assign (parents ++ [last]) (some entry.1) (comparator entry.1) entry.2 =
        root.modifyAt (fun node =>
          setKey node last (.object (Dict.insert ∅ entry.1 entry.2))) parents := by
    intro root entry hentry
    rw [assign_operator (hkeys entry hentry), assignValue_concat]
  have hwhole : root.assign (parents ++ [last]) none .eq (.object fields) =
      root.modifyAt (fun node => setKey node last (.object fields)) parents :=
    assignValue_concat root parents last (.object fields)
  have hsome : entries ≠ [] := fun hnil => hfields.toList_ne_nil (hnil ▸ hentries).nil_eq.symm
  obtain ⟨first, rest, rfl⟩ := List.exists_cons_of_ne_nil hsome
  rw [hwhole, List.foldl_ext _ _ root hone, List.foldl_cons, Fields.foldl_modifyAt]
  simp only [foldl_setKey_operators_of_perm hlast hfields hentries hkeys]

def postsSince : Condition := Condition.assign ∅ ["post", "date"] none .gte (.string "2020")

def dateRange : Fields := Dict.insert (Dict.insert ∅ "$gte" (.string "2021")) "$lt" (.string "2025")

def dateBounds : List (String × Value) := [("$lt", .string "2025"), ("$gte", .string "2021")]

theorem areOperators_dateRange : AreOperators dateRange where
  nonempty := rfl
  keys key operand hget := by
    rw [dateRange, Dict.get?_insert] at hget
    split at hget
    · next hkey => exact hkey ▸ ⟨by decide, by decide⟩
    · rw [Dict.get?_insert] at hget
      split at hget
      · next hkey => exact hkey ▸ ⟨by decide, by decide⟩
      · exact nomatch hget

/-- Both ways lead over the comparison to the operators of the range. -/
theorem assign_eq_foldl_operators_dateRange :
    AreOperators dateRange ∧ dateBounds.Perm dateRange.toList ∧
    postsSince.at? ["post", "date"] = some (.defer .gte (.string "2020")) ∧
    (dateBounds.foldl (fun root entry =>
      root.assign ["post", "date"] (some entry.1) .eq entry.2) postsSince).at? ["post", "date"] =
        some (.object dateRange) := by
  have hpath : ["post", "date"] ≠ [] := List.cons_ne_nil _ _
  have hentries : dateBounds.Perm dateRange.toList := List.Perm.swap _ _ []
  have hwhole := assign_eq_foldl_operators postsSince ["post", "date"] hpath rfl dateRange
    areOperators_dateRange dateBounds hentries fun _ => .eq
  refine ⟨areOperators_dateRange, hentries, rfl, ?_⟩
  rw [← hwhole]
  rfl

end Condition

end Abac
