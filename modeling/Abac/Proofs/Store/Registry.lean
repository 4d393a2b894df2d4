import Abac.Proofs.Declaration.Drafts
import Abac.Store.Request
import Mathlib.Data.Finmap
import Mathlib.Data.List.Sort

/-!
A store is a finite map from identifiers to policies. What each request means for such a map is said
by `Registry.Step`: a request that is refused, for one of the reasons of `Registry.Refuses`, and one
that only asks leave the map as it is, and the others insert or erase. A request means one thing only
(`Registry.Step.unique`). Stores answer every run of requests, made through any handles, as the maps
that they stand for, and come to stand for the maps that result (`Store.respondAll_refines`).
-/
namespace Abac

abbrev Registry : Type := Finmap fun _ : String => Policy

namespace Registry

open Store

/-- The identifier under which a declaration in JSON is stored: its own, or the generated one if it
has none. -/
def identifier? (fresh : String) (value : Json) : Option String :=
  match value.field? "id" with
  | none => some fresh
  | some (.string id) => some id
  | some _ => none

/-- Why a request is refused: the declaration does not compile, the text is no JSON, its identifier
is not a string, or there is no policy to update, delete or evaluate. An update looks for the policy
before it looks at the declaration. -/
inductive Refuses (m : Registry) : Request → PolicyError → Prop
  | load {id declaration e} (h : Policy.compile declaration = .error e) :
      Refuses m (.load id declaration) e
  | updateMissing {id declaration} (hid : id ∉ m) :
      Refuses m (.update id declaration) (.notFound id)
  | update {id declaration e} (hid : id ∈ m) (h : Policy.compile declaration = .error e) :
      Refuses m (.update id declaration) e
  | delete {id} (hid : id ∉ m) : Refuses m (.delete id) (.notFound id)
  | evaluate {id ctx} (hid : id ∉ m) : Refuses m (.evaluate id ctx) (.notFound id)
  | malformed {fresh text} (h : Json.parse? text = none) :
      Refuses m (.loadText fresh text) .malformedJson
  | identifier {fresh text value found} (hvalue : Json.parse? text = some value)
      (hfound : value.field? "id" = some found) (h : identifier? fresh value = none) :
      Refuses m (.loadText fresh text) (.identifier found)
  | declaration {fresh text value id e} (hvalue : Json.parse? text = some value)
      (hid : identifier? fresh value = some id) (h : Policy.ofJson value = .error e) :
      Refuses m (.loadText fresh text) e

inductive Shows (m : Registry) : Request → Answer → Prop
  | get (id) : Shows m (.get id) (.policy (m.lookup id))
  | evaluate {id policy} (ctx) (h : m.lookup id = some policy) :
      Shows m (.evaluate id ctx) (.evaluation (policy.evaluate ctx))
  | contains {id b} (h : b = true ↔ id ∈ m) : Shows m (.contains id) (.flag b)
  | ids {ids} (hsorted : ids.Pairwise (· < ·)) (hmem : ∀ id, id ∈ ids ↔ id ∈ m) :
      Shows m .ids (.names ids)
  | size : Shows m .size (.count m.keys.card)
  | isEmpty {b} (h : b = true ↔ m = ∅) : Shows m .isEmpty (.flag b)

mutual

/-- What a request means for a finite map: the answer, and the map afterwards. -/
inductive Step : Registry → Request → Answer → Registry → Prop
  | refused {m request e} (h : m.Refuses request e) : Step m request (.refused e) m
  | shown {m request answer} (h : m.Shows request answer) : Step m request answer m
  | load {m id declaration policy} (h : Policy.compile declaration = .ok policy) :
      Step m (.load id declaration) .done (m.insert id policy)
  | update {m id declaration policy} (hid : id ∈ m)
      (h : Policy.compile declaration = .ok policy) :
      Step m (.update id declaration) .done (m.insert id policy)
  | delete {m id} (hid : id ∈ m) : Step m (.delete id) .done (m.erase id)
  | loadText {m fresh text value id policy} (hvalue : Json.parse? text = some value)
      (hid : identifier? fresh value = some id) (h : Policy.ofJson value = .ok policy) :
      Step m (.loadText fresh text) (.loaded id) (m.insert id policy)
  | loadBatch {m entries ids m'} (h : Batch m entries ids m') :
      Step m (.loadBatch entries) (.names ids) m'
  | clear {m} : Step m .clear .done ∅

/-- A batch is loaded entry by entry, and the identifiers of the entries that are not refused are
kept, in their order. -/
inductive Batch : Registry → List (String × Declaration) → List String → Registry → Prop
  | nil {m} : Batch m [] [] m
  | loaded {m id declaration m' rest ids m''} (h : Step m (.load id declaration) .done m')
      (hrest : Batch m' rest ids m'') : Batch m ((id, declaration) :: rest) (id :: ids) m''
  | refused {m id declaration e m' rest ids m''} (h : Step m (.load id declaration) (.refused e) m')
      (hrest : Batch m' rest ids m'') : Batch m ((id, declaration) :: rest) ids m''

end

inductive Steps {Handle Owner : Type} [DecidableEq Owner] (owner : Handle → Owner) :
    (Owner → Registry) → List (Handle × Request) → List Answer → (Owner → Registry) → Prop
  | nil {maps} : Steps owner maps [] [] maps
  | cons {maps handle request answer m rest answers final}
      (h : Step (maps (owner handle)) request answer m)
      (hrest : Steps owner (Function.update maps (owner handle) m) rest answers final) :
      Steps owner maps ((handle, request) :: rest) (answer :: answers) final

theorem Refuses.unique {m : Registry} {request : Request} {e e' : PolicyError}
    (h : m.Refuses request e) (h' : m.Refuses request e') : e = e' := by
  cases h <;> cases h' <;> simp_all

theorem Shows.unique {m : Registry} {request : Request} {answer answer' : Answer}
    (h : m.Shows request answer) (h' : m.Shows request answer') : answer = answer' := by
  cases h with
  | ids hsorted hmem =>
    cases h' with
    | ids hsorted' hmem' =>
      have hsame (id : String) := (hmem id).trans (hmem' id).symm
      rw [hsorted.eq_of_mem_iff hsorted' hsame]
  | contains h =>
    cases h' with
    | contains h' => rw [Bool.eq_iff_iff.mpr (h.trans h'.symm)]
  | isEmpty h =>
    cases h' with
    | isEmpty h' => rw [Bool.eq_iff_iff.mpr (h.trans h'.symm)]
  | evaluate ctx h =>
    cases h' with
    | evaluate _ h' => rw [Option.some.inj (h.symm.trans h')]
  | _ => cases h'; rfl

theorem Shows.not_refuses {m : Registry} {request : Request} {answer : Answer}
    (h : m.Shows request answer) {e : PolicyError} : ¬m.Refuses request e := by
  intro hrefuses
  cases h <;> cases hrefuses
  next h hid => exact hid (Finmap.mem_of_lookup_eq_some h)

/-- What is refused is not carried out. -/
theorem Refuses.eq_refused {m m' : Registry} {request : Request} {e : PolicyError} {answer : Answer}
    (hrefuses : m.Refuses request e) (h : Step m request answer m') :
    answer = .refused e ∧ m' = m := by
  cases h with
  | refused hrefuses' => exact ⟨by rw [hrefuses.unique hrefuses'], rfl⟩
  | shown hshows => exact absurd hrefuses hshows.not_refuses
  | load hload =>
    cases hrefuses with
    | load hfailed => cases hload.symm.trans hfailed
  | update hid hload =>
    cases hrefuses with
    | updateMissing hmissing => exact absurd hid hmissing
    | update _ hfailed => cases hload.symm.trans hfailed
  | delete hid =>
    cases hrefuses with
    | delete hmissing => exact absurd hid hmissing
  | loadText hvalue hid hload =>
    cases hrefuses with
    | malformed hfailed => cases hvalue.symm.trans hfailed
    | identifier hvalue' _ hfailed =>
      obtain rfl := Option.some.inj (hvalue.symm.trans hvalue')
      cases hid.symm.trans hfailed
    | declaration hvalue' _ hfailed =>
      obtain rfl := Option.some.inj (hvalue.symm.trans hvalue')
      cases hload.symm.trans hfailed
  | loadBatch => cases hrefuses
  | clear => cases hrefuses

/-- A request that only asks changes nothing. -/
theorem Shows.eq_shown {m m' : Registry} {request : Request} {answer answer' : Answer}
    (hshows : m.Shows request answer) (h : Step m request answer' m') :
    answer' = answer ∧ m' = m := by
  cases h with
  | refused hrefuses => exact absurd hrefuses hshows.not_refuses
  | shown hshows' => exact ⟨hshows'.unique hshows, rfl⟩
  | _ => cases hshows

/-- Loading a declaration means one thing. -/
theorem Step.load_unique {m m' m'' : Registry} {id : String} {declaration : Declaration}
    {answer answer' : Answer} (h : Step m (.load id declaration) answer m')
    (h' : Step m (.load id declaration) answer' m'') : answer = answer' ∧ m' = m'' := by
  cases h' with
  | refused hrefuses => exact hrefuses.eq_refused h
  | shown hshows => cases hshows
  | load hload' =>
    cases h with
    | refused hrefuses => cases (hrefuses.eq_refused (.load hload')).1
    | shown hshows => cases hshows
    | load hload =>
      obtain rfl := Except.ok.inj (hload.symm.trans hload')
      exact ⟨rfl, rfl⟩

theorem Batch.unique {m m' m'' : Registry} {entries : List (String × Declaration)}
    {ids ids' : List String} (h : Batch m entries ids m') (h' : Batch m entries ids' m'') :
    ids = ids' ∧ m' = m'' := by
  induction entries generalizing m ids ids' with
  | nil =>
    cases h
    cases h'
    exact ⟨rfl, rfl⟩
  | cons entry rest ih =>
    cases h with
    | loaded hload hrest =>
      cases h' with
      | loaded hload' hrest' =>
        obtain ⟨-, rfl⟩ := hload.load_unique hload'
        obtain ⟨rfl, rfl⟩ := ih hrest hrest'
        exact ⟨rfl, rfl⟩
      | refused hload' _ => exact nomatch (hload.load_unique hload').1
    | refused hload hrest =>
      cases h' with
      | refused hload' hrest' =>
        obtain ⟨-, rfl⟩ := hload.load_unique hload'
        exact ih hrest hrest'
      | loaded hload' _ => exact nomatch (hload.load_unique hload').1

/-- A request means one thing: the map decides the answer and what becomes of it. -/
theorem Step.unique {m m' m'' : Registry} {request : Request} {answer answer' : Answer}
    (h : Step m request answer m') (h' : Step m request answer' m'') :
    answer = answer' ∧ m' = m'' := by
  cases h' with
  | refused hrefuses => exact hrefuses.eq_refused h
  | shown hshows => exact hshows.eq_shown h
  | load hload => exact h.load_unique (.load hload)
  | update hid hload' =>
    cases h with
    | refused hrefuses => cases (hrefuses.eq_refused (.update hid hload')).1
    | shown hshows => cases hshows
    | update _ hload =>
      obtain rfl := Except.ok.inj (hload.symm.trans hload')
      exact ⟨rfl, rfl⟩
  | delete hid =>
    cases h with
    | refused hrefuses => cases (hrefuses.eq_refused (.delete hid)).1
    | shown hshows => cases hshows
    | delete => exact ⟨rfl, rfl⟩
  | loadText hvalue' hid' hload' =>
    cases h with
    | refused hrefuses => cases (hrefuses.eq_refused (.loadText hvalue' hid' hload')).1
    | shown hshows => cases hshows
    | loadText hvalue hid hload =>
      obtain rfl := Option.some.inj (hvalue.symm.trans hvalue')
      obtain rfl := Option.some.inj (hid.symm.trans hid')
      obtain rfl := Except.ok.inj (hload.symm.trans hload')
      exact ⟨rfl, rfl⟩
  | loadBatch hbatch' =>
    cases h with
    | refused hrefuses => cases hrefuses
    | shown hshows => cases hshows
    | loadBatch hbatch =>
      obtain ⟨rfl, rfl⟩ := hbatch.unique hbatch'
      exact ⟨rfl, rfl⟩
  | clear =>
    cases h with
    | refused hrefuses => cases hrefuses
    | shown hshows => cases hshows
    | clear => exact ⟨rfl, rfl⟩

theorem Steps.unique {Handle Owner : Type} [DecidableEq Owner] {owner : Handle → Owner}
    {maps final final' : Owner → Registry} {requests : List (Handle × Request)}
    {answers answers' : List Answer} (h : Steps owner maps requests answers final)
    (h' : Steps owner maps requests answers' final') : answers = answers' ∧ final = final' := by
  induction h generalizing answers' with
  | nil =>
    cases h'
    exact ⟨rfl, rfl⟩
  | cons hstep _ ih =>
    cases h' with
    | cons hstep' hrest' =>
      obtain ⟨rfl, rfl⟩ := hstep.unique hstep'
      obtain ⟨rfl, rfl⟩ := ih hrest'
      exact ⟨rfl, rfl⟩

end Registry

namespace Store

open Registry

def toRegistry (store : Store) : Registry :=
  (store.policies.toList.map fun entry => Sigma.mk entry.1 entry.2).toFinmap

theorem lookup_toRegistry (store : Store) (id : String) :
    store.toRegistry.lookup id = store.get? id := by
  have hentries {low : Option String} (entries : Entries Policy low) :
      (entries.toList.map fun entry => (⟨entry.1, entry.2⟩ : Σ _ : String, Policy)).dlookup id =
        entries.get? id := by
    induction entries with
    | nil => rfl
    | cons key above policy rest ih =>
      rw [Entries.toList, List.map_cons, Entries.get?]
      by_cases hid : id = key
      · rw [if_pos hid, hid, List.dlookup_cons_eq]
      · rw [if_neg hid, List.dlookup_cons_ne _ _ hid, ih]
  rw [toRegistry, Finmap.dlookup_list_toFinmap, hentries]
  rfl

theorem mem_toRegistry_iff (store : Store) (id : String) :
    id ∈ store.toRegistry ↔ store.contains id = true := by
  rw [← Finmap.lookup_isSome, lookup_toRegistry]
  rfl

theorem notMem_toRegistry {store : Store} {id : String} (h : ¬store.contains id = true) :
    id ∉ store.toRegistry :=
  mt (store.mem_toRegistry_iff id).mp h

theorem toRegistry_empty : ({} : Store).toRegistry = ∅ := rfl

theorem toRegistry_insert (store : Store) (id : String) (policy : Policy) :
    (store.insert id policy).toRegistry = store.toRegistry.insert id policy := by
  apply Finmap.ext_lookup
  intro other
  rw [lookup_toRegistry]
  by_cases hother : other = id
  · rw [hother, Finmap.lookup_insert]
    exact Dict.get?_insert_self store.policies id policy
  · rw [Finmap.lookup_insert_of_ne _ hother, lookup_toRegistry]
    exact Dict.get?_insert_of_ne store.policies policy hother

theorem toRegistry_erase (store : Store) (id : String) :
    (Store.mk (store.policies.erase id)).toRegistry = store.toRegistry.erase id := by
  apply Finmap.ext_lookup
  intro other
  rw [lookup_toRegistry, get?, Entries.get?_erase]
  by_cases hother : other = id
  · rw [if_pos hother, hother, Finmap.lookup_erase]
  · rw [if_neg hother, Finmap.lookup_erase_ne hother, lookup_toRegistry]
    rfl

theorem size_eq_card (store : Store) : store.size = store.toRegistry.keys.card := by
  have hkeys : store.toRegistry.keys = store.ids.toFinset := by
    ext id
    rw [Finmap.mem_keys, mem_toRegistry_iff, List.mem_toFinset]
    exact (Entries.mem_keys_iff store.policies id).symm
  have hnodup : store.ids.Nodup := store.policies.pairwise_keys.imp String.ne_of_lt
  rw [hkeys, List.toFinset_card_of_nodup hnodup]
  exact (List.length_map _).symm

theorem isEmpty_iff (store : Store) : store.isEmpty = true ↔ store.toRegistry = ∅ := by
  obtain ⟨policies⟩ := store
  cases policies with
  | nil => exact iff_of_true rfl rfl
  | cons id above policy rest =>
    refine iff_of_false Bool.false_ne_true fun hempty => ?_
    have hid : id ∈ (Store.mk (.cons id above policy rest)).toRegistry := by
      rw [mem_toRegistry_iff]
      simp [contains, Entries.contains, Entries.get?]
    exact Finmap.notMem_empty (hempty ▸ hid)

/-- Loading a declaration is a step of the map, whether the declaration compiles or not. -/
theorem step_load (store : Store) (id : String) (declaration : Declaration) :
    Step store.toRegistry (.load id declaration) (store.settle (store.load id declaration)).1
      (store.settle (store.load id declaration)).2.toRegistry := by
  rw [load]
  cases hcompile : Policy.compile declaration with
  | error e => exact .refused (.load hcompile)
  | ok policy =>
    change Step _ _ .done (store.insert id policy).toRegistry
    rw [toRegistry_insert]
    exact .load hcompile

theorem step_update (store : Store) (id : String) (declaration : Declaration) :
    Step store.toRegistry (.update id declaration) (store.settle (store.update id declaration)).1
      (store.settle (store.update id declaration)).2.toRegistry := by
  rw [update]
  by_cases hid : store.contains id = true
  · rw [if_pos hid, load]
    have hmem := (store.mem_toRegistry_iff id).mpr hid
    cases hcompile : Policy.compile declaration with
    | error e => exact .refused (.update hmem hcompile)
    | ok policy =>
      change Step _ _ .done (store.insert id policy).toRegistry
      rw [toRegistry_insert]
      exact .update hmem hcompile
  · rw [if_neg hid]
    exact .refused (.updateMissing (notMem_toRegistry hid))

theorem step_delete (store : Store) (id : String) :
    Step store.toRegistry (.delete id) (store.settle (store.delete id)).1
      (store.settle (store.delete id)).2.toRegistry := by
  rw [delete]
  by_cases hid : store.contains id = true
  · rw [if_pos hid]
    change Step _ _ .done (Store.mk (store.policies.erase id)).toRegistry
    rw [toRegistry_erase]
    exact .delete ((store.mem_toRegistry_iff id).mpr hid)
  · rw [if_neg hid]
    exact .refused (.delete (notMem_toRegistry hid))

/-- The identifier of a declaration plays no part in reading the policy. -/
theorem ofJson_splitIdentifier (value : Json) :
    Policy.ofJson (splitIdentifier value).2 = Policy.ofJson value := by
  cases value with
  | object fields =>
    rw [splitIdentifier, Policy.ofJson, Policy.ofJson, Declaration.ofJson_erase rfl]
  | _ => rfl

theorem fst_splitIdentifier (value : Json) : (splitIdentifier value).1 = value.field? "id" := by
  cases value <;> rfl

/-- A value with an identifier to store it under is stored under that one. -/
theorem loadJson_of_identifier (store : Store) (fallback : Option String) {fresh id : String}
    {value : Json} (h : identifier? (fallback.getD fresh) value = some id) :
    store.loadJson fallback fresh value =
      (Policy.ofJson value).map fun policy => (id, store.insert id policy) := by
  rw [identifier?, ← fst_splitIdentifier] at h
  rw [loadJson, ← ofJson_splitIdentifier]
  generalize splitIdentifier value = parts at h ⊢
  obtain ⟨found, content⟩ := parts
  cases found with
  | none =>
    obtain rfl := Option.some.inj h
    exact bind_pure_comp _ _
  | some found =>
    cases found with
    | string other =>
      obtain rfl := Option.some.inj h
      exact bind_pure_comp _ _
    | _ => cases h

theorem loadJson_of_not_identifier (store : Store) (fallback : Option String) {fresh : String}
    {value : Json} (h : identifier? (fallback.getD fresh) value = none) :
    ∃ found, value.field? "id" = some found ∧
      store.loadJson fallback fresh value = .error (.identifier found) := by
  rw [identifier?, ← fst_splitIdentifier] at h
  rw [loadJson, ← fst_splitIdentifier]
  generalize splitIdentifier value = parts at h ⊢
  obtain ⟨found, content⟩ := parts
  cases found with
  | none => cases h
  | some found =>
    cases found with
    | string id => cases h
    | _ => exact ⟨_, rfl, rfl⟩

theorem step_loadText (store : Store) (fresh text : String) :
    Step store.toRegistry (.loadText fresh text) (store.respond (.loadText fresh text)).1
      (store.respond (.loadText fresh text)).2.toRegistry := by
  rw [respond, loadText]
  cases hvalue : Json.parse? text with
  | none => exact .refused (.malformed hvalue)
  | some value =>
    cases hid : identifier? fresh value with
    | none =>
      obtain ⟨found, hfound, hload⟩ := store.loadJson_of_not_identifier none hid
      simp only [hload]
      exact .refused (.identifier hvalue hfound hid)
    | some id =>
      simp only [store.loadJson_of_identifier none hid]
      cases hpolicy : Policy.ofJson value with
      | error e => exact .refused (.declaration hvalue hid hpolicy)
      | ok policy =>
        change Step _ _ (.loaded id) (store.insert id policy).toRegistry
        rw [toRegistry_insert]
        exact .loadText hvalue hid hpolicy

theorem batch_loadBatch (store : Store) (entries : List (String × Declaration)) :
    Batch store.toRegistry entries (store.loadBatch entries).1
      (store.loadBatch entries).2.toRegistry := by
  induction entries generalizing store with
  | nil => exact .nil
  | cons entry rest ih =>
    obtain ⟨id, declaration⟩ := entry
    have hstep := store.step_load id declaration
    rw [loadBatch]
    cases hload : store.load id declaration with
    | error e =>
      rw [hload] at hstep
      exact .refused hstep (ih store)
    | ok changed =>
      rw [hload] at hstep
      exact .loaded hstep (ih changed)

/-- A store answers each request as the finite map that it stands for, and stands for the map that
the request makes of that one. -/
theorem step_respond (store : Store) (request : Request) :
    Step store.toRegistry request (store.respond request).1
      (store.respond request).2.toRegistry := by
  cases request with
  | load id declaration => exact store.step_load id declaration
  | update id declaration => exact store.step_update id declaration
  | delete id => exact store.step_delete id
  | loadText fresh text => exact store.step_loadText fresh text
  | loadBatch entries => exact .loadBatch (store.batch_loadBatch entries)
  | get id =>
    rw [respond, ← lookup_toRegistry]
    exact .shown (.get id)
  | evaluate id ctx =>
    rw [respond, evaluate]
    cases hget : store.get? id with
    | none =>
      refine .refused (.evaluate ?_)
      rw [← Finmap.lookup_eq_none, lookup_toRegistry, hget]
    | some policy => exact .shown (.evaluate ctx (by rw [lookup_toRegistry, hget]))
  | contains id => exact .shown (.contains (store.mem_toRegistry_iff id).symm)
  | ids =>
    refine .shown (.ids store.policies.pairwise_keys fun id => ?_)
    rw [mem_toRegistry_iff]
    exact store.policies.mem_keys_iff id
  | size =>
    rw [respond, size_eq_card]
    exact .shown .size
  | isEmpty => exact .shown (.isEmpty store.isEmpty_iff)
  | clear => exact .clear

/-- A run of requests means for the maps that stores stand for what the stores make of it. -/
theorem steps_respondAll {Handle Owner : Type} [DecidableEq Owner] (owner : Handle → Owner)
    (stores : Owner → Store) (requests : List (Handle × Request)) :
    Steps owner (fun place => (stores place).toRegistry) requests
      (respondAll owner stores requests).1
      (fun place => ((respondAll owner stores requests).2 place).toRegistry) := by
  induction requests generalizing stores with
  | nil => exact .nil
  | cons first rest ih =>
    obtain ⟨handle, request⟩ := first
    refine .cons ((stores (owner handle)).step_respond request) ?_
    have hmaps : Function.update (fun place => (stores place).toRegistry) (owner handle)
        ((stores (owner handle)).respond request).2.toRegistry = fun place =>
          (if place = owner handle then ((stores (owner handle)).respond request).2
            else stores place).toRegistry := by
      funext place
      rw [Function.update_apply]
      split <;> rfl
    rw [hmaps]
    exact ih _

/-- Stores refine finite maps. On every run of requests through any handles, whatever identifiers are
generated on the way, the stores give the answers and come to stand for the maps that the requests
mean for the maps they stand for at the start, and these alone. -/
theorem respondAll_refines {Handle Owner : Type} [DecidableEq Owner] (owner : Handle → Owner)
    (stores : Owner → Store) (requests : List (Handle × Request)) (answers : List Answer)
    (final : Owner → Registry) :
    Steps owner (fun place => (stores place).toRegistry) requests answers final ↔
      answers = (respondAll owner stores requests).1 ∧
      final = fun place => ((respondAll owner stores requests).2 place).toRegistry := by
  have hrun := steps_respondAll owner stores requests
  constructor
  · exact fun h => h.unique hrun
  · rintro ⟨rfl, rfl⟩
    exact hrun

end Store

end Abac
