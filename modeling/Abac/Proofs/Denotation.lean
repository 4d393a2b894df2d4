import Abac.Proofs.Dict
import Abac.Proofs.Reading

/-!
The value of an expression and the log of its evaluation. The value depends on the context alone;
there is none exactly where some part of the expression fails, a path that leads nowhere or an
operator without a result for the values of its sides (`Expr.value?_eq_none_iff`), and a repeated
key of an object has the value of its last entry. The log holds every path that leads somewhere, in
reading order, whatever becomes of the value: the readings of a namespace are inserted into its
snapshot one after the other, and those of the resource add their bindings
(`Record.readAll_eq`). The two parts together are `Expr.evaluate_eq_denotation`.
-/
namespace Abac

/-! ## The log -/

abbrev Reading : Type := List String × Value

namespace Context

variable (ctx : Context)

def reading? (ns : Namespace) (ref : Reference) : Option Reading :=
  if ref.1 = ns then (ctx.value? ns ref.2).map fun value => (ref.2, value) else none

/-- The bindings of a reading of the resource: the reading itself, or for the whole table one for
each of its attributes, in the order of their keys. -/
def bindingsOfReading (r : Reading) : List Binding :=
  if r.1 = [] then (Value.ofJsonFields ctx.resource).toList.map fun entry => ([entry.1], entry.2)
  else [r]

theorem bindingsOf_eq {segments : List String} {value : Value}
    (h : ctx.value? .resource segments = some value) :
    Record.bindingsOf segments value = ctx.bindingsOfReading (segments, value) := by
  cases segments with
  | nil =>
    obtain rfl : Value.object (Value.ofJsonFields ctx.resource) = value := Option.some.inj h
    rfl
  | cons segment segments => rfl

end Context

def Fields.recordReading (snapshot : Fields) (r : Reading) : Fields := snapshot.insertAt r.1 r.2

namespace Record

variable (ctx : Context)

/-- A reading is recorded in the snapshot of its namespace alone, and bindings come of the resource
alone. -/
theorem read_eq (record : Record) (ref : Reference) :
    (record.read ctx ref.1 ref.2).2 =
      { user := ((ctx.reading? .user ref).toList).foldl Fields.recordReading record.user
        resource := ((ctx.reading? .resource ref).toList).foldl Fields.recordReading record.resource
        bindings := record.bindings ++
          ((ctx.reading? .resource ref).toList).flatMap ctx.bindingsOfReading } := by
  obtain ⟨ns, segments⟩ := ref
  unfold read Context.reading?
  cases hvalue : ctx.value? ns segments with
  | none => cases ns <;> simp [hvalue]
  | some value =>
    cases ns with
    | user => simp [note, hvalue, Fields.recordReading]
    | resource => simp [note, hvalue, Fields.recordReading, ctx.bindingsOf_eq hvalue]
    | action => simp [note]
    | environment => simp [note]

/-- The readings of several references are recorded one after the other. -/
theorem readAll_eq (record : Record) (refs : List Reference) :
    record.readAll ctx refs =
      { user := (refs.filterMap (ctx.reading? .user)).foldl Fields.recordReading record.user
        resource :=
          (refs.filterMap (ctx.reading? .resource)).foldl Fields.recordReading record.resource
        bindings := record.bindings ++
          (refs.filterMap (ctx.reading? .resource)).flatMap ctx.bindingsOfReading } := by
  induction refs generalizing record with
  | nil => simp [readAll]
  | cons ref rest ih =>
    have hcons : ∀ ns, (ref :: rest).filterMap (ctx.reading? ns) =
        (ctx.reading? ns ref).toList ++ rest.filterMap (ctx.reading? ns) := by
      intro ns
      cases hreading : ctx.reading? ns ref with
      | none => rw [List.filterMap_cons_none hreading]; rfl
      | some r => rw [List.filterMap_cons_some hreading]; rfl
    change (record.read ctx ref.1 ref.2).2.readAll ctx rest = _
    rw [ih, read_eq, hcons, hcons, List.foldl_append, List.foldl_append, List.flatMap_append,
      List.append_assoc]

end Record

namespace Expr

variable (ctx : Context)

def readings (ns : Namespace) (e : Expr) : List Reading :=
  e.references.filterMap (ctx.reading? ns)

/-! ## The value -/

inductive Part : Expr → Expr → Prop where
  | self (e : Expr) : Part e e
  | item {items : List Expr} {item part : Expr} (hmem : item ∈ items) (h : Part item part) :
      Part (.array items) part
  | entry {entries : List (String × Expr)} {key : String} {e part : Expr}
      (hmem : (key, e) ∈ entries) (h : Part e part) : Part (.object entries) part
  | left {op : Arithmetic} {lhs rhs part : Expr} (h : Part lhs part) :
      Part (.binary op lhs rhs) part
  | right {op : Arithmetic} {lhs rhs part : Expr} (h : Part rhs part) :
      Part (.binary op lhs rhs) part

/-- What fails by itself: a path that leads nowhere, and an operator that has no result for the
values of its two sides. -/
def Fails (ctx : Context) : Expr → Prop
  | .path source => ctx.value? source.ns source.segments = none
  | .binary op lhs rhs =>
    ∃ a b, lhs.value? ctx = some a ∧ rhs.value? ctx = some b ∧ op.apply a b = none
  | .literal _ | .regex _ | .array _ | .object _ => False

theorem valuesOfItems?_eq_none_iff {items : List Expr} :
    valuesOfItems? ctx items = none ↔ ∃ item ∈ items, item.value? ctx = none := by
  induction items with
  | nil => simp [valuesOfItems?]
  | cons item rest ih =>
    rw [valuesOfItems?]
    cases hvalue : item.value? ctx with
    | none => simp [hvalue]
    | some value => simp [hvalue, ih]

theorem valuesOfEntries?_eq_none_iff {entries : List (String × Expr)} :
    valuesOfEntries? ctx entries = none ↔ ∃ entry ∈ entries, entry.2.value? ctx = none := by
  induction entries with
  | nil => simp [valuesOfEntries?]
  | cons entry rest ih =>
    obtain ⟨key, e⟩ := entry
    rw [valuesOfEntries?]
    cases hvalue : e.value? ctx with
    | none => simp [hvalue]
    | some value => simp [hvalue, ih]

/-- The entries of an object that has a value, each with its own value. -/
theorem map_value?_of_valuesOfEntries? {entries : List (String × Expr)}
    {pairs : List (String × Value)} (h : valuesOfEntries? ctx entries = some pairs) :
    entries.map (fun entry => (entry.1, entry.2.value? ctx)) =
      pairs.map fun pair => (pair.1, some pair.2) := by
  induction entries generalizing pairs with
  | nil =>
    obtain rfl := Option.some.inj h
    rfl
  | cons entry rest ih =>
    obtain ⟨key, e⟩ := entry
    rw [valuesOfEntries?] at h
    obtain ⟨value, hvalue, h⟩ := Option.bind_eq_some_iff.mp h
    obtain ⟨others, hothers, rfl⟩ := Option.map_eq_some_iff.mp h
    simp only [List.map_cons, hvalue, ih hothers]

/-- An object has under a key the value of the last entry with this key. -/
theorem exists_fields_of_value? {entries : List (String × Expr)} {value : Value}
    (h : (Expr.object entries).value? ctx = some value) :
    ∃ fields : Fields, value = .object fields ∧
      ∀ key, fields.get? key = (entries.reverse.lookup key).bind fun e => e.value? ctx := by
  obtain ⟨pairs, hpairs, rfl⟩ := Option.map_eq_some_iff.mp h
  refine ⟨Dict.ofList pairs, rfl, fun key => ?_⟩
  have hreverse := congrArg List.reverse (map_value?_of_valuesOfEntries? ctx hpairs)
  rw [← List.map_reverse, ← List.map_reverse] at hreverse
  have hlookup := congrArg (List.lookup key) hreverse
  rw [Dict.lookup_map (fun e : Expr => e.value? ctx), Dict.lookup_map some] at hlookup
  rw [Dict.get?_ofList]
  cases hentry : entries.reverse.lookup key with
  | none =>
    rw [hentry] at hlookup
    exact Option.map_eq_none_iff.mp hlookup.symm
  | some e =>
    rw [hentry] at hlookup
    obtain ⟨value, hpair, hvalue⟩ := Option.map_eq_some_iff.mp hlookup.symm
    exact hpair.trans hvalue

theorem value?_binary_eq_none_iff {op : Arithmetic} {lhs rhs : Expr} :
    (Expr.binary op lhs rhs).value? ctx = none ↔
      lhs.value? ctx = none ∨ rhs.value? ctx = none ∨ (Expr.binary op lhs rhs).Fails ctx := by
  rw [value?, Fails]
  cases hl : lhs.value? ctx with
  | none => simp
  | some a =>
    cases hr : rhs.value? ctx with
    | none => simp
    | some b => simp

/-- A part that has no value leaves the whole without one. -/
theorem value?_eq_none_of_part {e part : Expr} (hpart : Part e part)
    (h : part.value? ctx = none) : e.value? ctx = none := by
  induction hpart with
  | self e => exact h
  | item hmem _ ih =>
    rw [value?, Option.map_eq_none_iff, valuesOfItems?_eq_none_iff]
    exact ⟨_, hmem, ih h⟩
  | entry hmem _ ih =>
    rw [value?, Option.map_eq_none_iff, valuesOfEntries?_eq_none_iff]
    exact ⟨_, hmem, ih h⟩
  | left _ ih => exact (value?_binary_eq_none_iff ctx).mpr (.inl (ih h))
  | right _ ih => exact (value?_binary_eq_none_iff ctx).mpr (.inr (.inl (ih h)))

theorem Fails.value?_eq_none {e : Expr} (h : e.Fails ctx) : e.value? ctx = none := by
  cases e with
  | path source => exact h
  | binary op lhs rhs => exact (value?_binary_eq_none_iff ctx).mpr (.inr (.inr h))
  | _ => exact h.elim

/-- Where an expression has no value some part of it fails. -/
theorem exists_part_of_value?_eq_none (e : Expr) (h : e.value? ctx = none) :
    ∃ part, Part e part ∧ part.Fails ctx := by
  match e with
  | .literal value => cases h
  | .regex pattern => cases h
  | .path source => exact ⟨.path source, .self _, h⟩
  | .array items =>
    rw [value?, Option.map_eq_none_iff, valuesOfItems?_eq_none_iff] at h
    obtain ⟨item, hmem, hitem⟩ := h
    obtain ⟨part, hpart, hfails⟩ := exists_part_of_value?_eq_none item hitem
    exact ⟨part, .item hmem hpart, hfails⟩
  | .object entries =>
    rw [value?, Option.map_eq_none_iff, valuesOfEntries?_eq_none_iff] at h
    obtain ⟨⟨key, e⟩, hmem, hentry⟩ := h
    obtain ⟨part, hpart, hfails⟩ := exists_part_of_value?_eq_none e hentry
    exact ⟨part, .entry hmem hpart, hfails⟩
  | .binary op lhs rhs =>
    rcases (value?_binary_eq_none_iff ctx).mp h with hl | hr | hfails
    · obtain ⟨part, hpart, hfails⟩ := exists_part_of_value?_eq_none lhs hl
      exact ⟨part, .left hpart, hfails⟩
    · obtain ⟨part, hpart, hfails⟩ := exists_part_of_value?_eq_none rhs hr
      exact ⟨part, .right hpart, hfails⟩
    · exact ⟨_, .self _, hfails⟩
termination_by sizeOf e
decreasing_by
  · have := List.sizeOf_lt_of_mem hmem
    rw [Expr.array.sizeOf_spec]
    omega
  · have := List.sizeOf_lt_of_mem hmem
    rw [Prod.mk.sizeOf_spec] at this
    rw [Expr.object.sizeOf_spec]
    omega
  · rw [Expr.binary.sizeOf_spec]
    omega
  · rw [Expr.binary.sizeOf_spec]
    omega

theorem value?_eq_none_iff {e : Expr} :
    e.value? ctx = none ↔ ∃ part, Part e part ∧ part.Fails ctx := by
  constructor
  · exact exists_part_of_value?_eq_none ctx e
  · intro hpart
    obtain ⟨part, hpart, hfails⟩ := hpart
    exact value?_eq_none_of_part ctx hpart (hfails.value?_eq_none ctx)

/-- Evaluating an expression gives its value in the context and records every reading it makes, in
reading order and whether or not the other parts have values: the snapshots of the user and of the
resource take them over one after the other, and the bindings of the resource readings are added.
There is no value exactly where a part of the expression fails, and in the value of an object the
last entry with a key counts. -/
theorem evaluate_eq_denotation (ctx : Context) (record : Record) (e : Expr) :
    e.evaluate ctx record =
      (e.value? ctx,
        { user := (e.readings ctx .user).foldl Fields.recordReading record.user
          resource := (e.readings ctx .resource).foldl Fields.recordReading record.resource
          bindings := record.bindings ++
            (e.readings ctx .resource).flatMap ctx.bindingsOfReading }) ∧
    (e.value? ctx = none ↔ ∃ part, Part e part ∧ part.Fails ctx) ∧
    ∀ entries value, (Expr.object entries).value? ctx = some value →
      ∃ fields : Fields, value = .object fields ∧
        ∀ key, fields.get? key = (entries.reverse.lookup key).bind fun e => e.value? ctx := by
  refine ⟨?_, value?_eq_none_iff ctx, fun _ _ => exists_fields_of_value? ctx⟩
  rw [evaluate_eq, Record.readAll_eq]
  rfl

def contact : List (String × Expr) :=
  [("mail", .literal (.string "none")), ("mail", .path ⟨.user, ["mail"], none⟩)]

def reachable : Context := .ofParts (some (.ofPairs [("mail", .string "a@b")])) none none none

/-- The second entry counts; and beside a missing path the address is recorded all the same. -/
theorem evaluate_eq_denotation_contact :
    (Expr.object contact).value? reachable =
      some (.object (Dict.ofList [("mail", .string "a@b")])) ∧
    (∃ fields : Fields, Value.object (Dict.ofList [("mail", .string "a@b")]) = .object fields ∧
      ∀ key, fields.get? key = (contact.reverse.lookup key).bind fun e => e.value? reachable) ∧
    (Expr.array [.path ⟨.user, ["phone"], none⟩, .object contact]).evaluate reachable {} =
      (none, { user := Fields.recordReading ∅ (["mail"], .string "a@b") }) := by
  have hvalue : (Expr.object contact).value? reachable =
      some (.object (Dict.ofList [("mail", .string "a@b")])) := rfl
  have hwhole := evaluate_eq_denotation reachable {}
    (.array [.path ⟨.user, ["phone"], none⟩, .object contact])
  exact ⟨hvalue, hwhole.2.2 contact _ hvalue, hwhole.1⟩

end Expr

end Abac
