import Abac.Proofs.Snapshot.Keeping

/-!
What is read stays recorded, unless a later reading enters an array. A reading inserts the value of
its place into the snapshot of its namespace, and the later readings leave it there as long as none
of them enters an array that was recorded with it (`Leaf.snapshot_complete`). A reading that does
puts an object with a single index in the place of the array, and the other elements are lost
(`Leaf.snapshot_incomplete`).
-/
namespace Abac

variable {ctx : Context} {ns : Namespace}

namespace Record

/-- Reading a present attribute of the user or of the resource inserts its value. -/
theorem snapshot_read_self (hns : ns = .user ∨ ns = .resource) {segments : List String}
    {value : Value} (h : ctx.value? ns segments = some value) (record : Record) :
    (record.read ctx ns segments).2.snapshot ns = (record.snapshot ns).insertAt segments value := by
  unfold read
  rw [h]
  rcases hns with rfl | rfl <;> rfl

def Within (ctx : Context) (ns : Namespace) (record : Record) : Prop :=
  ∀ key, (ctx.table ns).get? key = none → (record.snapshot ns).get? key = none

theorem within_empty : Within ctx ns {} := by
  intro key _
  cases ns <;> rfl

theorem Within.read {record : Record} (h : record.Within ctx ns) (ref : Reference) :
    (record.read ctx ref.1 ref.2).2.Within ctx ns := by
  cases hvalue : ctx.value? ref.1 ref.2 with
  | none =>
    rw [read_of_none record ctx hvalue]
    exact h
  | some value =>
    intro key hkey
    rcases snapshot_read_of_some record ctx hvalue ns with hsame | ⟨rfl, hinsert⟩
    · rw [hsame, h key hkey]
    · obtain ⟨json, hjson, rfl⟩ := Option.map_eq_some_iff.mp hvalue
      rw [hinsert]
      cases hsegments : ref.2 with
      | nil =>
        rw [hsegments] at hjson
        obtain rfl := Option.some.inj hjson
        change (Dict.extend _ (Value.ofJsonFields _)).get? key = none
        rw [Dict.get?_extend, Value.get?_ofJsonFields, hkey, h key hkey]
        rfl
      | cons first rest =>
        have hne : key ≠ first := by
          rintro rfl
          rw [hsegments, Context.lookup, Json.at?, hkey] at hjson
          cases hjson
        rw [Fields.get?_insertAt_of_ne hne, h key hkey]

theorem Within.readAll {record : Record} (h : record.Within ctx ns) (refs : List Reference) :
    (record.readAll ctx refs).Within ctx ns := by
  induction refs generalizing record with
  | nil => exact h
  | cons ref rest ih => exact ih (h.read ref)

def Keeps (ctx : Context) (ns : Namespace) (place path : List String) (record : Record) : Prop :=
  Abac.Keeps place path (.object (record.snapshot ns)) (.object (ctx.table ns))

variable {place path : List String} {target : Json}

/-- A reading of a place keeps what is there. -/
theorem Within.keeps_read {record : Record} (h : record.Within ctx ns)
    (hns : ns = .user ∨ ns = .resource) (hplace : place <+: path) {read : Json}
    (hread : ctx.lookup ns place = some read) :
    (record.read ctx ns place).2.Keeps ctx ns place path := by
  have hvalue : ctx.value? ns place = some (.ofJson read) := by
    rw [Context.value?, hread]
    rfl
  rw [Keeps, snapshot_read_self hns hvalue]
  cases place with
  | nil =>
    obtain rfl := Option.some.inj hread
    exact .of_extend h path
  | cons first rest => exact .of_insertAt (List.cons_ne_nil first rest) hplace hread _

/-- A later reading leaves what is kept if it does not break into it. -/
theorem Keeps.read {record : Record} (h : record.Keeps ctx ns place path)
    (hpath : ctx.lookup ns path = some target) {ref : Reference}
    (hlater : ref.1 = ns → ¬ref.2 <+: path)
    (hbreaks : ref.1 = ns → (ctx.lookup ns ref.2).isSome = true →
      ¬(Json.object (ctx.table ns)).BreaksInto place path ref.2) :
    (record.read ctx ref.1 ref.2).2.Keeps ctx ns place path := by
  cases hvalue : ctx.value? ref.1 ref.2 with
  | none =>
    rw [read_of_none record ctx hvalue]
    exact h
  | some value =>
    rcases snapshot_read_of_some record ctx hvalue ns with hsame | ⟨rfl, hinsert⟩
    · rw [Keeps, hsame]
      exact h
    · obtain ⟨read, hread, rfl⟩ := Option.map_eq_some_iff.mp hvalue
      rw [Keeps, hinsert]
      exact h.insertAt hpath hread (hlater rfl) (hbreaks rfl (hread ▸ rfl))

/-- Several readings leave what is kept if none of them breaks into it. -/
theorem Keeps.readAll {record : Record} (h : record.Keeps ctx ns place path)
    (hpath : ctx.lookup ns path = some target) {refs : List Reference}
    (hlater : ∀ later, (ns, later) ∈ refs → ¬later <+: path)
    (hbreaks : ∀ later, (ns, later) ∈ refs → (ctx.lookup ns later).isSome = true →
      ¬(Json.object (ctx.table ns)).BreaksInto place path later) :
    (record.readAll ctx refs).Keeps ctx ns place path := by
  induction refs generalizing record with
  | nil => exact h
  | cons ref rest ih =>
    have hnext : (record.read ctx ref.1 ref.2).2.Keeps ctx ns place path := by
      refine h.read hpath ?_ ?_
      · rintro rfl
        exact hlater ref.2 List.mem_cons_self
      · rintro rfl
        exact hbreaks ref.2 List.mem_cons_self
    exact ih hnext (fun later hmem => hlater later (List.mem_cons_of_mem _ hmem))
      fun later hmem => hbreaks later (List.mem_cons_of_mem _ hmem)

end Record

namespace Leaf

/-- Let `place` be the last reading that leads to a path or to something above it. If the attributes
that are read afterwards and are present are not behind an array which was recorded with `place` and
which the path meets, then the path leads in the final snapshot to the value of the context. -/
theorem snapshot_complete (leaf : Leaf) (ctx : Context) (ns : Namespace)
    (hns : ns = .user ∨ ns = .resource) (before after : List Reference)
    (place path : List String) (value : Value)
    (hreadings : leaf.readings ctx = before ++ (ns, place) :: after) (hplace : place <+: path)
    (hvalue : ctx.value? ns path = some value)
    (hlast : ∀ later, (ns, later) ∈ after → ¬later <+: path)
    (hbreaks : ∀ later, (ns, later) ∈ after → (ctx.lookup ns later).isSome = true →
      ¬(Json.object (ctx.table ns)).BreaksInto place path later) :
    (Value.object ((leaf.evaluate ctx).snapshot ns)).follow? path = some value := by
  obtain ⟨target, hpath, rfl⟩ := Option.map_eq_some_iff.mp hvalue
  obtain ⟨rest, rfl⟩ := id hplace
  obtain ⟨read, hread, -⟩ : ∃ read, ctx.lookup ns place = some read ∧
      read.at? rest = some target := by
    rwa [Context.lookup, Json.at?_append, Option.bind_eq_some_iff] at hpath
  have hkeeps : (Record.readAll ctx {} (leaf.readings ctx)).Keeps ctx ns place (place ++ rest) := by
    rw [hreadings, Record.readAll_append]
    have hwithin : (Record.readAll ctx {} before).Within ctx ns :=
      Record.within_empty.readAll before
    exact (hwithin.keeps_read hns hplace hread).readAll hpath hlast hbreaks
  rw [snapshot_evaluate, hkeeps.follow?_eq]
  exact congrArg (Option.map Value.ofJson) hpath

def present (source : String) (segments : List String) : Clause :=
  ⟨source, ⟨.user, segments, none⟩, .ne, .literal .null⟩

def firstThenItems : Leaf where
  effect := .permit
  target := [present "user.items.0!=null" ["items", "0"], present "user.items!=null" ["items"],
    present "user.team.lead!=null" ["team", "lead"]]

def itemsThenFirst : Leaf where
  effect := .permit
  target := [present "user.items!=null" ["items"], present "user.items.0!=null" ["items", "0"]]

def holderOfTwoItems : Context :=
  .ofParts (some (.ofPairs [("items", .array [.string "a", .string "b"]),
    ("team", .ofPairs [("lead", .string "ann")])])) none none none

theorem snapshot_complete_firstThenItems :
    firstThenItems.readings holderOfTwoItems =
      [(.user, ["items", "0"])] ++ (.user, ["items"]) :: [(.user, ["team", "lead"])] ∧
    holderOfTwoItems.value? .user ["items", "0"] = some (.string "a") ∧
    (Value.object ((firstThenItems.evaluate holderOfTwoItems).snapshot .user)).follow?
      ["items", "0"] = some (.string "a") := by
  have hapart : ¬["items"] <+: ["team", "lead"] := by decide
  refine ⟨rfl, rfl, snapshot_complete firstThenItems holderOfTwoItems .user (.inl rfl)
    [(.user, ["items", "0"])] [(.user, ["team", "lead"])] ["items"] ["items", "0"] (.string "a") rfl
    (by decide) rfl ?_ ?_⟩
  · intro later hlater
    obtain rfl : later = ["team", "lead"] := by simpa using hlater
    decide
  · rintro later hlater - ⟨above, hplace, habove, -⟩
    obtain rfl : later = ["team", "lead"] := by simpa using hlater
    exact hapart (hplace.trans habove)

theorem snapshot_incomplete :
    (itemsThenFirst.evaluate holderOfTwoItems).applicable = true ∧
    (.user, ["items"]) ∈ itemsThenFirst.readings holderOfTwoItems ∧
    holderOfTwoItems.value? .user ["items"] = some (.array [.string "a", .string "b"]) ∧
    (Value.object ((itemsThenFirst.evaluate holderOfTwoItems).snapshot .user)).follow? ["items"] ≠
      some (.array [.string "a", .string "b"]) := by
  have hreplaced : (Value.object ((itemsThenFirst.evaluate holderOfTwoItems).snapshot
      .user)).follow? ["items"] = some (.object (Dict.insert ∅ "0" (.string "a"))) := rfl
  rw [hreplaced]
  exact ⟨rfl, List.mem_cons_self, rfl, nofun⟩

end Leaf

end Abac
