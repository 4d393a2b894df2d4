import Abac.Proofs.PolicyTree
import Abac.Proofs.Snapshot.Recording
import Abac.Proofs.Snapshot.Showing

/-!
Snapshots disclose nothing but what the context holds at places that the policy names. A reading
inserts the value of a named place, and whatever is below it is what the context holds there, too;
a node of a policy merges the snapshots of its children. So a path of keys in a snapshot ends at
the value that the context has at that path, and some reference of the policy leads there or to
something above it (`Policy.snapshot_disclosed`).
-/
namespace Abac

theorem Value.get?_ofJsonFields {low : Option String} (fields : Entries Json low) (key : String) :
    (ofJsonFields fields).get? key = (fields.get? key).map ofJson := by
  induction fields with
  | nil => rfl
  | cons k above value rest ih =>
    rw [ofJsonFields, Entries.get?, Entries.get?, ih]
    split <;> rfl

/-- A path of keys in the value of a piece of JSON is a path in the JSON itself. -/
theorem Json.at?_of_at?_ofJson {json : Json} {path : List String} {inner : Value}
    (h : (Value.ofJson json).at? path = some inner) :
    (json.at? path).map Value.ofJson = some inner := by
  induction path generalizing json with
  | nil => exact h
  | cons key path ih =>
    cases json with
    | object fields =>
      obtain ⟨value, hget, hvalue⟩ := Option.bind_eq_some_iff.mp h
      rw [Value.get?_ofJsonFields, Option.map_eq_some_iff] at hget
      obtain ⟨below, hbelow, rfl⟩ := hget
      rw [Json.at?, hbelow, Option.bind_some]
      exact ih hvalue
    | _ => exact nomatch h

/-- A path leads on from where its beginning leads. -/
theorem Json.at?_append (json : Json) (path rest : List String) :
    json.at? (path ++ rest) = (json.at? path).bind fun inner => inner.at? rest := by
  induction path generalizing json with
  | nil => rfl
  | cons segment path ih =>
    rw [List.cons_append]
    cases json with
    | object fields => simp only [Json.at?, ih, Option.bind_assoc]
    | array items => simp only [Json.at?, ih, Option.bind_assoc]
    | _ => rfl

namespace Context

variable {ctx : Context}

theorem value?_append {ns : Namespace} {segments path : List String} {value inner : Value}
    (hvalue : ctx.value? ns segments = some value) (hinner : value.at? path = some inner) :
    ctx.value? ns (segments ++ path) = some inner := by
  obtain ⟨json, hjson, rfl⟩ := Option.map_eq_some_iff.mp hvalue
  rw [value?, lookup, Json.at?_append, ← lookup, hjson]
  exact Json.at?_of_at?_ofJson hinner

/-- A path of a namespace is known by references if the context has a value there, and one of the
references leads to it or to something above it. -/
def Known (ctx : Context) (refs : List Reference) (ns : Namespace) (path : List String)
    (value : Value) : Prop :=
  (∃ json, ctx.lookup ns path = some json ∧ Value.ofJson json = value) ∧
    ∃ ref ∈ refs, ref.1 = ns ∧ ref.2 <+: path

theorem Known.mono {refs refs' : List Reference} {ns : Namespace} {path : List String}
    {value : Value} (h : ctx.Known refs ns path value) (hsub : refs ⊆ refs') :
    ctx.Known refs' ns path value := by
  obtain ⟨hlookup, ref, href, hplace⟩ := h
  exact ⟨hlookup, ref, hsub href, hplace⟩

/-- Below a reference everything is known. -/
theorem shows_known {refs : List Reference} {ns : Namespace} {segments : List String}
    {value : Value} (href : (ns, segments) ∈ refs) (hvalue : ctx.value? ns segments = some value) :
    value.Shows fun path inner => ctx.Known refs ns (segments ++ path) inner := by
  intro path inner hat _
  exact ⟨Option.map_eq_some_iff.mp (value?_append hvalue hat), (ns, segments), href, rfl,
    List.prefix_append segments path⟩

end Context

variable {ctx : Context}

theorem Fields.Shows.mono {P Q : List String → Value → Prop} {root : Fields} (h : root.Shows P)
    (himp : ∀ path value, P path value → Q path value) : root.Shows Q := by
  intro key value hget path inner hat hinner
  exact himp _ _ (h key value hget path inner hat hinner)

namespace Record

def Discloses (ctx : Context) (refs : List Reference) (record : Record) : Prop :=
  ∀ ns, (record.snapshot ns).Shows (ctx.Known refs ns)

theorem discloses_empty (refs : List Reference) : Discloses ctx refs {} := by
  intro ns
  cases ns <;> exact Fields.shows_empty

theorem Discloses.read {refs : List Reference} {record : Record} (h : record.Discloses ctx refs)
    {ref : Reference} (href : ref ∈ refs) : (record.read ctx ref.1 ref.2).2.Discloses ctx refs := by
  cases hvalue : ctx.value? ref.1 ref.2 with
  | none =>
    rw [read_of_none record ctx hvalue]
    exact h
  | some value =>
    intro ns
    rcases snapshot_read_of_some record ctx hvalue ns with hsame | ⟨rfl, hinsert⟩
    · rw [hsame]
      exact h ns
    · rw [hinsert]
      exact (h ref.1).insertAt (Context.shows_known href hvalue)

/-- What is read of references keeps to them. -/
theorem Discloses.readAll {refs read : List Reference} {record : Record}
    (h : record.Discloses ctx refs) (hread : read ⊆ refs) :
    (record.readAll ctx read).Discloses ctx refs := by
  induction read generalizing record with
  | nil => exact h
  | cons ref rest ih =>
    exact ih (h.read (hread List.mem_cons_self)) (List.subset_of_cons_subset hread)

end Record

namespace Evaluation

theorem snapshot_absorb (result part : Evaluation) (ns : Namespace) :
    (result.absorb part).snapshot ns = (result.snapshot ns).merge (part.snapshot ns) := by
  cases ns <;> rfl

theorem snapshot_combine (applicable : Bool) (parts : List Evaluation) (ns : Namespace) :
    (combine applicable parts).snapshot ns = (parts.foldl absorb {}).snapshot ns := by
  cases ns <;> rfl

theorem shows_foldl_absorb {P : List String → Value → Prop} {ns : Namespace}
    {parts : List Evaluation} {result : Evaluation} (hresult : (result.snapshot ns).Shows P)
    (hparts : ∀ part ∈ parts, (part.snapshot ns).Shows P) :
    ((parts.foldl absorb result).snapshot ns).Shows P := by
  induction parts generalizing result with
  | nil => exact hresult
  | cons part rest ih =>
    have hpart := hparts part List.mem_cons_self
    have hrest : ∀ other ∈ rest, (other.snapshot ns).Shows P :=
      fun other hother => hparts other (List.mem_cons_of_mem part hother)
    apply ih _ hrest
    rw [snapshot_absorb]
    exact hresult.merge hpart

/-- A combination shows nothing but what its parts show. -/
theorem shows_combine {P : List String → Value → Prop} {ns : Namespace} (applicable : Bool)
    {parts : List Evaluation} (hparts : ∀ part ∈ parts, (part.snapshot ns).Shows P) :
    ((combine applicable parts).snapshot ns).Shows P := by
  have hempty : (({} : Evaluation).snapshot ns).Shows P := by
    cases ns <;> exact Fields.shows_empty
  rw [snapshot_combine]
  exact shows_foldl_absorb hempty hparts

end Evaluation

namespace Policy

theorem references_subset_of_mem_children {policy child : Policy} (h : child ∈ policy.children) :
    child.references ⊆ policy.references := by
  cases policy with
  | leaf content => exact absurd h List.not_mem_nil
  | composite op left right =>
    rcases List.mem_cons.mp h with rfl | hright
    · exact List.subset_append_left _ _
    · exact List.mem_singleton.mp hright ▸ List.subset_append_right _ _
  | group expression members =>
    obtain ⟨member, hmember, rfl⟩ := List.mem_map.mp h
    exact references_subset_of_mem hmember

theorem shows_snapshot (policy : Policy) (ctx : Context) (ns : Namespace) :
    ((policy.evaluate ctx).snapshot ns).Shows (ctx.Known policy.references ns) := by
  induction policy using inductionOnChildren with
  | leaf content =>
    rw [evaluate, Leaf.snapshot_evaluate]
    exact (Record.discloses_empty _).readAll (content.readings_subset ctx) ns
  | node policy hnode ih =>
    rw [evaluate_node ctx hnode]
    apply Evaluation.shows_combine
    intro part hpart
    obtain ⟨child, hchild, rfl⟩ := List.mem_map.mp hpart
    have hsub := references_subset_of_mem_children hchild
    exact (ih child hchild).mono fun path value h => h.mono hsub

/-- A path of keys that ends in a snapshot at anything but an object with fields leads in the
context to that same value, and it is one of the paths that the policy reads in the namespace, or
goes on behind one of them. -/
theorem snapshot_disclosed (policy : Policy) (ctx : Context) (ns : Namespace) (key : String)
    (path : List String) (value : Value)
    (hpath : ((policy.evaluate ctx).snapshot ns).at? (key :: path) = some value)
    (hvalue : value.isFilled = false) :
    (∃ json, ctx.lookup ns (key :: path) = some json ∧ Value.ofJson json = value) ∧
      ∃ ref ∈ policy.references, ref.1 = ns ∧ ref.2 <+: key :: path :=
  (policy.shows_snapshot ctx ns).at? hpath hvalue

def ownAccount : Policy :=
  .composite .and
    (.leaf {
      effect := .permit
      target := [⟨"user.accounts.0.owner=resource.owner", ⟨.user, ["accounts", "0", "owner"], none⟩,
        .eq, .path ⟨.resource, ["owner"], none⟩⟩] })
    (.leaf {
      effect := .permit
      target := [⟨"user.accounts.0!=null", ⟨.user, ["accounts", "0"], none⟩, .ne,
        .literal .null⟩] })

def holderOfTwoAccounts : Context :=
  .ofParts
    (some (.ofPairs [("accounts", .array [
      .ofPairs [("kind", .string "cash"), ("owner", .string "ann")],
      .ofPairs [("kind", .string "deposit"), ("owner", .string "ann")]])]))
    none none (some (.ofPairs [("owner", .string "ann"), ("secret", .string "x")]))

/-- In the snapshot the index is a key, and the path goes on below what the policy names. -/
theorem snapshot_disclosed_ownAccount :
    ((ownAccount.evaluate holderOfTwoAccounts).snapshot .user).at? ["accounts", "0", "kind"] =
      some (.string "cash") ∧
    (∃ json, holderOfTwoAccounts.lookup .user ["accounts", "0", "kind"] = some json ∧
      Value.ofJson json = .string "cash") ∧
    ∃ ref ∈ ownAccount.references, ref.1 = .user ∧ ref.2 <+: ["accounts", "0", "kind"] := by
  have hpath : ((ownAccount.evaluate holderOfTwoAccounts).snapshot .user).at?
      ["accounts", "0", "kind"] = some (.string "cash") := rfl
  exact ⟨hpath, snapshot_disclosed ownAccount holderOfTwoAccounts .user "accounts" ["0", "kind"]
    (.string "cash") hpath rfl⟩

end Policy

end Abac
