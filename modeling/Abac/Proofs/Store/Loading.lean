import Abac.Proofs.Files
import Abac.Proofs.Store.Texts
import Abac.Proofs.Traversal

/-!
Loading files. A file supplies a policy under an identifier, or it fails for one reason (`Supplies`,
`Fails`). Files are loaded in order up to the first that fails (`Loads`), and the store afterwards
is the store before with what these files supply, the last file of each identifier
(`Store.Extends`). The files of a directory are those with the extension of JSON, in the order of
their names (`Lists`). All of this together says what a directory and what a configuration loads
(`Store.loadDirectory_and_ofFiles_iff`). The name of a file need not be a text, and then an
identifier is generated for it, and a JSON text need not have a value, and then it is not loaded
(`Store.loadDirectory_unnamed_and_unvalued`).
-/
namespace Abac

namespace Store

open Registry (identifier?)

/-- A file that is to be loaded, and the identifier for a declaration that has none of its own. -/
abbrev Source : Type := Path × String

inductive Supplies (files : Files) (source : Source) : String × Policy → Prop
  | intro {text value id policy} (hread : files.read? source.1 = some text)
      (hvalue : Json.parse? text = some value) (hid : identifier? source.2 value = some id)
      (hpolicy : Policy.ofJson value = .ok policy) : Supplies files source (id, policy)

/-- Why a file is not loaded: it cannot be read, it holds no JSON, its identifier is no string, or
what it declares does not compile. The first of these is reported. -/
inductive Fails (files : Files) (source : Source) : PolicyError → Prop
  | unreadable (hread : files.read? source.1 = none) : Fails files source .unreadable
  | malformed {text} (hread : files.read? source.1 = some text)
      (hvalue : Json.parse? text = none) : Fails files source .malformedJson
  | identifier {text value found} (hread : files.read? source.1 = some text)
      (hvalue : Json.parse? text = some value) (hfound : value.field? "id" = some found)
      (hid : identifier? source.2 value = none) : Fails files source (.identifier found)
  | declaration {text value id e} (hread : files.read? source.1 = some text)
      (hvalue : Json.parse? text = some value) (hid : identifier? source.2 value = some id)
      (hpolicy : Policy.ofJson value = .error e) : Fails files source e

/-- What is stored of files that are loaded in order, and the answer: the identifiers of all of
them, or the error of the first that fails. -/
inductive Loads (files : Files) :
    List Source → List (String × Policy) → Except PolicyError (List String) → Prop
  | all {sources loaded} (h : List.Forall₂ (Supplies files) sources loaded) :
      Loads files sources loaded (.ok (loaded.map (·.1)))
  | upTo {before failing after loaded e} (h : List.Forall₂ (Supplies files) before loaded)
      (hfails : Fails files failing e) :
      Loads files (before ++ failing :: after) loaded (.error e)

/-- A store holds what another one holds and what was loaded into it, the last policy of each
identifier. -/
def Extends (changed store : Store) (loaded : List (String × Policy)) : Prop :=
  ∀ id, changed.get? id = (loaded.reverse.lookup id).or (store.get? id)

/-- The stems of the files in a directory that hold declarations: the files whose name is the stem
with the extension of JSON, in increasing order of their names. -/
inductive Lists (files : Files) (directory : Path) (stems : List FileName) : Prop
  | intro {place : Files.Place} (hplace : files.place? directory = some place)
      (hdirectory : files.entry? place = some .directory)
      (hsorted : (stems.map (· ++ .ofText ".json")).Pairwise (· < ·))
      (hmem : ∀ stem, stem ∈ stems ↔
        stem ≠ [] ∧ ∃ entry, (place ++ [stem ++ .ofText ".json"], entry) ∈ files.entries)

/-- The file of a directory with a stem. The stem is the identifier for its declaration, if it is a
text, and else the generated one is. -/
def sourceIn (directory : Path) (fresh : String) (stem : FileName) : Source :=
  (directory ++ [.down (stem ++ .ofText ".json")], stem.text?.getD fresh)

def sourceAt (fresh : String) (path : Path) : Source :=
  (path, (path.stem?.bind FileName.text?).getD fresh)

inductive Gathers (files : Files) (fresh : Nat → String) : Option Path → List Source → Prop
  | none : Gathers files fresh none []
  | some {directory stems} (h : Lists files directory stems) :
      Gathers files fresh (some directory) (stems.mapIdx fun n => sourceIn directory (fresh n))

/-! ## One file -/

/-- A file that is named by itself is read, then made a value of and then stored. -/
theorem loadFile_eq (store : Store) (files : Files) (path : Path) (fresh : String) :
    store.loadFile files path fresh =
      match files.read? (sourceAt fresh path).1 with
      | none => .error .unreadable
      | some text =>
        match Json.parse? text with
        | none => .error .malformedJson
        | some value => store.loadJson (path.stem?.bind FileName.text?) fresh value :=
  rfl

theorem loadFile_of_supplies (store : Store) {files : Files} {path : Path} {fresh : String}
    {loaded : String × Policy} (h : Supplies files (sourceAt fresh path) loaded) :
    store.loadFile files path fresh = .ok (loaded.1, store.insert loaded.1 loaded.2) := by
  obtain ⟨hread, hvalue, hid, hpolicy⟩ := h
  simp only [loadFile_eq, hread, hvalue]
  rw [store.loadJson_of_identifier _ hid, hpolicy]
  rfl

theorem loadFile_of_fails (store : Store) {files : Files} {path : Path} {fresh : String}
    {e : PolicyError} (h : Fails files (sourceAt fresh path) e) :
    store.loadFile files path fresh = .error e := by
  cases h with
  | unreadable hread => simp only [loadFile_eq, hread]
  | malformed hread hvalue => simp only [loadFile_eq, hread, hvalue]
  | identifier hread hvalue hfound hid =>
    obtain ⟨found, hfound', hload⟩ := store.loadJson_of_not_identifier _ hid
    obtain rfl := Option.some.inj (hfound.symm.trans hfound')
    simp only [loadFile_eq, hread, hvalue, hload]
  | declaration hread hvalue hid hpolicy =>
    simp only [loadFile_eq, hread, hvalue]
    rw [store.loadJson_of_identifier _ hid, hpolicy]
    rfl

/-- A file supplies a policy or fails. -/
theorem supplies_or_fails (files : Files) (source : Source) :
    (∃ loaded, Supplies files source loaded) ∨ ∃ e, Fails files source e := by
  cases hread : files.read? source.1 with
  | none => exact .inr ⟨_, .unreadable hread⟩
  | some text =>
    cases hvalue : Json.parse? text with
    | none => exact .inr ⟨_, .malformed hread hvalue⟩
    | some value =>
      cases hid : identifier? source.2 value with
      | none =>
        obtain ⟨found, hfound, -⟩ := ({} : Store).loadJson_of_not_identifier none hid
        exact .inr ⟨_, .identifier hread hvalue hfound hid⟩
      | some id =>
        cases hpolicy : Policy.ofJson value with
        | error e => exact .inr ⟨e, .declaration hread hvalue hid hpolicy⟩
        | ok policy => exact .inl ⟨_, .intro hread hvalue hid hpolicy⟩

/-! ## Files in order -/

def insertAll (store : Store) (loaded : List (String × Policy)) : Store :=
  loaded.foldl (fun store entry => store.insert entry.1 entry.2) store

theorem extends_insertAll (store : Store) (loaded : List (String × Policy)) :
    (store.insertAll loaded).Extends store loaded := by
  intro id
  induction loaded generalizing store with
  | nil => rfl
  | cons entry rest ih =>
    obtain ⟨first, policy⟩ := entry
    have hinsert : (store.insert first policy).get? id =
        if id = first then some policy else store.get? id := Dict.get?_insert _ _ _ _
    rw [insertAll, List.foldl_cons, ← insertAll, ih, hinsert, List.reverse_cons,
      List.lookup_append, Option.or_assoc, Dict.lookup_singleton]
    split
    · rfl
    · rfl

/-- What a store holds determines it. -/
theorem eq_of_get? {a b : Store} (h : ∀ id, a.get? id = b.get? id) : a = b := by
  obtain ⟨policies⟩ := a
  obtain ⟨others⟩ := b
  have hpolicies : policies = others := Dict.ext h
  rw [hpolicies]

theorem extends_iff {changed store : Store} {loaded : List (String × Policy)} :
    changed.Extends store loaded ↔ changed = store.insertAll loaded := by
  constructor
  · intro h
    exact eq_of_get? fun id => (h id).trans (store.extends_insertAll loaded id).symm
  · rintro rfl
    exact store.extends_insertAll loaded

/-- Files that are all loaded are followed by the others. -/
theorem loadFiles_append (store : Store) {files : Files} {before : List Path} {fresh : Nat → String}
    {loaded : List (String × Policy)}
    (h : List.Forall₂ (Supplies files) (before.mapIdx fun n => sourceAt (fresh n)) loaded)
    (after : List Path) :
    store.loadFiles files (before ++ after) fresh =
      let rest := (store.insertAll loaded).loadFiles files after fun n => fresh (n + before.length)
      (rest.1.map (loaded.map (·.1) ++ ·), rest.2) := by
  induction before generalizing store loaded fresh with
  | nil =>
    cases h
    rw [insertAll, List.foldl_nil, List.nil_append]
    simp only [List.length_nil, Nat.add_zero]
    cases hrest : store.loadFiles files after fresh with
    | mk answer changed => cases answer <;> rfl
  | cons path before ih =>
    rw [List.mapIdx_cons] at h
    obtain ⟨entry, rest, hentry, hrest, rfl⟩ := List.forall₂_cons_left_iff.mp h
    rw [List.cons_append, loadFiles, store.loadFile_of_supplies hentry]
    simp only [ih _ hrest, List.length_cons, Nat.add_assoc]
    rw [insertAll, insertAll, List.foldl_cons]
    cases (List.foldl _ _ rest : Store).loadFiles files after _ with
    | mk answer changed => cases answer <;> rfl

theorem loadFiles_of_loads (store : Store) {files : Files} {paths : List Path}
    {fresh : Nat → String} {loaded : List (String × Policy)}
    {answer : Except PolicyError (List String)}
    (h : Loads files (paths.mapIdx fun n => sourceAt (fresh n)) loaded answer) :
    store.loadFiles files paths fresh = (answer, store.insertAll loaded) := by
  generalize hsources : (paths.mapIdx fun n => sourceAt (fresh n)) = sources at h
  cases h with
  | all h =>
    subst hsources
    rw [← List.append_nil paths, store.loadFiles_append h, loadFiles]
    simp [Except.map]
  | upTo h hfails =>
    obtain ⟨before, failing, rfl, rfl, hfailing⟩ := List.mapIdx_eq_append_iff.mp hsources
    obtain ⟨path, after, rfl, rfl, rfl⟩ := List.mapIdx_eq_cons_iff.mp hfailing
    rw [Nat.zero_add] at hfails
    rw [store.loadFiles_append h, loadFiles, loadFile_of_fails _ (by simpa using hfails)]
    rfl

/-- All files are loaded, or they are up to the first that fails. -/
theorem exists_loads (files : Files) (sources : List Source) :
    ∃ loaded answer, Loads files sources loaded answer := by
  induction sources with
  | nil => exact ⟨[], _, .all .nil⟩
  | cons source rest ih =>
    rcases supplies_or_fails files source with ⟨entry, hentry⟩ | ⟨e, hfails⟩
    · obtain ⟨loaded, answer, hrest⟩ := ih
      cases hrest with
      | all h => exact ⟨_, _, .all (.cons hentry h)⟩
      | upTo h hfails => exact ⟨_, _, .upTo (.cons hentry h) hfails⟩
    · exact ⟨[], _, .upTo .nil hfails⟩

theorem loadFiles_eq_iff {store changed : Store} {files : Files} {paths : List Path}
    {fresh : Nat → String} {answer : Except PolicyError (List String)} :
    store.loadFiles files paths fresh = (answer, changed) ↔
      ∃ loaded, Loads files (paths.mapIdx fun n => sourceAt (fresh n)) loaded answer ∧
        changed.Extends store loaded := by
  simp only [extends_iff]
  constructor
  · intro h
    obtain ⟨loaded, answer', hloads⟩ :=
      exists_loads files (paths.mapIdx fun n => sourceAt (fresh n))
    rw [store.loadFiles_of_loads hloads] at h
    obtain ⟨rfl, rfl⟩ := Prod.mk.inj h
    exact ⟨loaded, hloads, rfl⟩
  · rintro ⟨loaded, hloads, rfl⟩
    exact store.loadFiles_of_loads hloads

/-! ## Directories -/

theorem splitExtension_json {stem : FileName} (h : stem ≠ []) :
    (stem ++ .ofText ".json").splitExtension = (stem, some (.ofText "json")) := by
  refine FileName.splitExtension_eq_iff.mpr ⟨rfl, h, by decide, fun hname => ?_⟩
  have hlast := congrArg List.getLast? hname
  rw [List.getLast?_append_of_ne_nil _ (by decide)] at hlast
  exact absurd hlast (by decide)

/-- The names with the extension of JSON are those that end in it, with something in front. -/
theorem splitExtension_snd_iff {name : FileName} :
    name.splitExtension.2 = some (.ofText "json") ↔
      name.splitExtension.1 ≠ [] ∧ name = name.splitExtension.1 ++ .ofText ".json" := by
  constructor
  · intro h
    obtain ⟨hname, hstem, -⟩ := FileName.splitExtension_eq_iff.mp (Prod.ext rfl h)
    exact ⟨hstem, hname⟩
  · rintro ⟨hstem, hname⟩
    rw [hname, splitExtension_json hstem]

theorem sourceAt_down {stem : FileName} (h : stem ≠ []) (directory : Path) (fresh : String) :
    sourceAt fresh (directory ++ [.down (stem ++ .ofText ".json")]) =
      sourceIn directory fresh stem := by
  rw [sourceAt, sourceIn, Path.stem?_append_down, splitExtension_json h]
  rfl

/-- A directory lists the same stems only. -/
theorem Lists.unique {files : Files} {directory : Path} {stems stems' : List FileName}
    (h : Lists files directory stems) (h' : Lists files directory stems') : stems = stems' := by
  obtain ⟨hplace, -, hsorted, hmem⟩ := h
  obtain ⟨hplace', -, hsorted', hmem'⟩ := h'
  obtain rfl := Option.some.inj (hplace.symm.trans hplace')
  have hnames : stems.map (· ++ .ofText ".json") = stems'.map (· ++ .ofText ".json") := by
    refine hsorted.eq_of_mem_iff hsorted' fun name => ?_
    simp only [List.mem_map, hmem, hmem']
  exact List.map_injective_iff.mpr (fun _ _ => List.append_left_inj _ |>.mp) hnames

/-- A directory that can be read lists the files that hold its declarations. -/
theorem exists_lists {files : Files} {directory : Path} {names : List FileName}
    (h : files.list? directory = some names) :
    ∃ stems, Lists files directory stems ∧
      declarationFiles files directory =
        some (stems.map fun stem => directory ++ [.down (stem ++ .ofText ".json")]) := by
  obtain ⟨place, hplace, hdirectory, hsorted, hmem⟩ := Files.list?_eq_some_iff.mp h
  let chosen := names.filter fun name => name.splitExtension.2 = some (.ofText "json")
  have hnames : ∀ name ∈ chosen,
      name.splitExtension.1 ≠ [] ∧ name = name.splitExtension.1 ++ .ofText ".json" := by
    intro name hname
    exact splitExtension_snd_iff.mp (of_decide_eq_true (List.mem_filter.mp hname).2)
  have hchosen :
      (chosen.map fun name => name.splitExtension.1).map (· ++ .ofText ".json") = chosen :=
    calc (chosen.map fun name => name.splitExtension.1).map (· ++ .ofText ".json")
        = chosen.map fun name => name.splitExtension.1 ++ .ofText ".json" := List.map_map
      _ = chosen.map id := List.map_congr_left fun name hname => (hnames name hname).2.symm
      _ = chosen := List.map_id chosen
  refine ⟨chosen.map fun name => name.splitExtension.1, .intro hplace hdirectory ?_ ?_, ?_⟩
  · rw [hchosen]
    exact hsorted.filter _
  · intro stem
    rw [List.mem_map]
    constructor
    · rintro ⟨name, hname, rfl⟩
      obtain ⟨hstem, heq⟩ := hnames name hname
      exact ⟨hstem, heq ▸ (hmem name).mp (List.mem_filter.mp hname).1⟩
    · rintro ⟨hstem, hentry⟩
      have hsplit := splitExtension_json hstem
      refine ⟨stem ++ .ofText ".json", List.mem_filter.mpr ⟨(hmem _).mpr hentry, ?_⟩, ?_⟩
      · rw [hsplit]
        rfl
      · rw [hsplit]
  · rw [declarationFiles, h, Option.map_some]
    change some (chosen.map _) = _
    conv_lhs => rw [← hchosen]
    rw [List.map_map, List.map_map, List.map_map]
    rfl

theorem exists_list?_of_lists {files : Files} {directory : Path} {stems : List FileName}
    (h : Lists files directory stems) : ∃ names, files.list? directory = some names := by
  obtain ⟨hplace, hdirectory, -, -⟩ := h
  rw [Files.list?, hplace]
  simp [Files.isDirectory, hdirectory]

/-- The declarations of a directory are the files that it lists. -/
theorem declarationFiles_eq_some_iff {files : Files} {directory : Path} {paths : List Path} :
    declarationFiles files directory = some paths ↔
      ∃ stems, Lists files directory stems ∧
        paths = stems.map fun stem => directory ++ [.down (stem ++ .ofText ".json")] := by
  constructor
  · intro h
    obtain ⟨names, hnames, -⟩ := Option.map_eq_some_iff.mp h
    obtain ⟨stems, hstems, hpaths⟩ := exists_lists hnames
    exact ⟨stems, hstems, Option.some.inj (h.symm.trans hpaths)⟩
  · rintro ⟨stems, hstems, rfl⟩
    obtain ⟨names, hnames⟩ := exists_list?_of_lists hstems
    obtain ⟨stems', hstems', hpaths⟩ := exists_lists hnames
    rw [hpaths, hstems.unique hstems']

/-- The files that a directory lists are its sources. -/
theorem Lists.mapIdx_sourceAt {files : Files} {directory : Path} {stems : List FileName}
    (h : Lists files directory stems) (fresh : Nat → String) :
    (stems.map fun stem => directory ++ [.down (stem ++ .ofText ".json")]).mapIdx
        (fun n => sourceAt (fresh n)) =
      stems.mapIdx fun n => sourceIn directory (fresh n) := by
  obtain ⟨-, -, -, hmem⟩ := h
  have hstems (stem : FileName) (hstem : stem ∈ stems) : stem ≠ [] := ((hmem stem).mp hstem).1
  clear hmem
  induction stems generalizing fresh with
  | nil => rfl
  | cons stem rest ih =>
    obtain ⟨hstem, hrest⟩ := List.forall_mem_cons.mp hstems
    rw [List.map_cons, List.mapIdx_cons, List.mapIdx_cons, sourceAt_down hstem,
      ih (fun n => fresh (n + 1)) hrest]

theorem loadDirectory_eq_iff {store changed : Store} {files : Files} {directory : Path}
    {fresh : Nat → String} {answer : Except PolicyError (List String)} :
    store.loadDirectory files directory fresh = (answer, changed) ↔
      (¬(∃ stems, Lists files directory stems) ∧ answer = .error .unreadable ∧ changed = store) ∨
      ∃ stems loaded, Lists files directory stems ∧
        Loads files (stems.mapIdx fun n => sourceIn directory (fresh n)) loaded answer ∧
        changed.Extends store loaded := by
  rw [loadDirectory]
  cases hpaths : declarationFiles files directory with
  | none =>
    have hnone : ¬∃ stems, Lists files directory stems := by
      rintro ⟨stems, hstems⟩
      rw [declarationFiles_eq_some_iff.mpr ⟨stems, hstems, rfl⟩] at hpaths
      cases hpaths
    constructor
    · intro h
      obtain ⟨rfl, rfl⟩ := Prod.mk.inj h
      exact .inl ⟨hnone, rfl, rfl⟩
    · rintro (⟨-, rfl, rfl⟩ | ⟨stems, -, hstems, -⟩)
      · rfl
      · exact absurd ⟨stems, hstems⟩ hnone
  | some paths =>
    obtain ⟨stems, hstems, rfl⟩ := declarationFiles_eq_some_iff.mp hpaths
    simp only [loadFiles_eq_iff, hstems.mapIdx_sourceAt]
    constructor
    · rintro ⟨loaded, hloads, hextends⟩
      exact .inr ⟨stems, loaded, hstems, hloads, hextends⟩
    · rintro (⟨hnone, -⟩ | ⟨stems', loaded, hstems', hloads, hextends⟩)
      · exact absurd ⟨stems, hstems⟩ hnone
      · exact ⟨loaded, hstems.unique hstems' ▸ hloads, hextends⟩

/-! ## Configurations -/

theorem insertAll_append (store : Store) (first more : List (String × Policy)) :
    store.insertAll (first ++ more) = (store.insertAll first).insertAll more :=
  List.foldl_append

theorem loads_ok_iff {files : Files} {sources : List Source} {loaded : List (String × Policy)}
    {ids : List String} :
    Loads files sources loaded (.ok ids) ↔
      List.Forall₂ (Supplies files) sources loaded ∧ ids = loaded.map (·.1) := by
  constructor
  · intro h
    cases h with
    | all h => exact ⟨h, rfl⟩
  · rintro ⟨h, rfl⟩
    exact .all h

def loadGiven (files : Files) (fresh : Nat → String) :
    Option Path → Except PolicyError (List String) × Store
  | some directory => ({} : Store).loadDirectory files directory fresh
  | none => (.ok [], {})

/-- The directory of a configuration is loaded if all of its files are. -/
theorem loadGiven_eq_ok_iff {files : Files} {fresh : Nat → String} {directory : Option Path}
    {ids : List String} {store : Store} :
    loadGiven files fresh directory = (.ok ids, store) ↔
      ∃ listed loaded, Gathers files fresh directory listed ∧
        List.Forall₂ (Supplies files) listed loaded ∧ ids = loaded.map (·.1) ∧
        store = ({} : Store).insertAll loaded := by
  cases directory with
  | none =>
    constructor
    · intro h
      obtain ⟨hids, rfl⟩ := Prod.mk.inj h
      obtain rfl := Except.ok.inj hids
      exact ⟨[], [], .none, .nil, rfl, rfl⟩
    · rintro ⟨listed, loaded, hgathers, hloaded, rfl, rfl⟩
      cases hgathers
      cases hloaded
      rfl
  | some directory =>
    simp only [loadGiven, loadDirectory_eq_iff, loads_ok_iff, extends_iff]
    constructor
    · rintro (⟨-, h, -⟩ | ⟨stems, loaded, hstems, ⟨hloaded, rfl⟩, rfl⟩)
      · cases h
      · exact ⟨_, loaded, .some hstems, hloaded, rfl, rfl⟩
    · rintro ⟨listed, loaded, hgathers, hloaded, rfl, rfl⟩
      cases hgathers with
      | some hstems => exact .inr ⟨_, loaded, hstems, ⟨hloaded, rfl⟩, rfl⟩

/-- A configuration loads its directory first and then its files. -/
theorem ofFiles_eq_ok_iff_stages {files : Files} {directory : Option Path} {paths : List Path}
    {fresh : Nat → String} {store : Store} :
    ofFiles files directory paths fresh = .ok store ↔
      ∃ ids middle, loadGiven files fresh directory = (.ok ids, middle) ∧
        ∃ more, middle.loadFiles files paths (fun n => fresh (n + ids.length)) =
          (.ok more, store) := by
  have hstages : ofFiles files directory paths fresh =
      (loadGiven files fresh directory).1.bind fun ids =>
        let rest := (loadGiven files fresh directory).2.loadFiles files paths
          fun n => fresh (n + ids.length)
        rest.1.map fun _ => rest.2 := by
    cases directory <;> rfl
  rw [hstages]
  obtain ⟨answer, middle⟩ := loadGiven files fresh directory
  cases answer with
  | error e => simp [Except.bind]
  | ok ids =>
    cases hpaths : middle.loadFiles files paths fun n => fresh (n + ids.length) with
    | mk answer changed => cases answer <;> simp [Except.bind, Except.map, hpaths]

theorem ofFiles_eq_ok_iff {files : Files} {directory : Option Path} {paths : List Path}
    {fresh : Nat → String} {store : Store} :
    ofFiles files directory paths fresh = .ok store ↔
      ∃ listed loaded, Gathers files fresh directory listed ∧
        List.Forall₂ (Supplies files)
          (listed ++ paths.mapIdx fun n => sourceAt (fresh (n + listed.length))) loaded ∧
        store.Extends {} loaded := by
  simp only [ofFiles_eq_ok_iff_stages, loadGiven_eq_ok_iff, loadFiles_eq_iff, loads_ok_iff,
    extends_iff]
  constructor
  · rintro ⟨ids, middle, ⟨listed, first, hgathers, hfirst, rfl, rfl⟩, ids, more, ⟨hmore, -⟩, rfl⟩
    rw [List.length_map, ← hfirst.length_eq] at hmore
    exact ⟨listed, first ++ more, hgathers, List.rel_append hfirst hmore,
      (insertAll_append {} first more).symm⟩
  · rintro ⟨listed, loaded, hgathers, hloaded, rfl⟩
    have hfirst := (List.forall₂_take_append loaded listed _ hloaded.flip).flip
    have hmore := (List.forall₂_drop_append loaded listed _ hloaded.flip).flip
    refine ⟨_, _, ⟨listed, loaded.take listed.length, hgathers, hfirst, rfl, rfl⟩, _,
      loaded.drop listed.length, ⟨?_, rfl⟩, ?_⟩
    · rwa [List.length_map, ← hfirst.length_eq]
    · rw [← insertAll_append, List.take_append_drop]

/-- What a directory loads into a store and what a configuration loads, with any identifiers that
are generated for files. A directory that cannot be read changes nothing. Of any other the files
with the extension of JSON are loaded in the order of their names, each under its own identifier, or
else its stem if that is a text, or else the one that is generated: all of them, and then their
identifiers are the answer, or those in front of the first that fails, whose error is the answer. A
configuration makes a store if the files of its directory and then its own files are all loaded,
and the store holds what these supply. -/
theorem loadDirectory_and_ofFiles_iff (files : Files) (fresh : Nat → String) :
    (∀ (store changed : Store) (directory : Path) (answer : Except PolicyError (List String)),
      store.loadDirectory files directory fresh = (answer, changed) ↔
        (¬(∃ stems, Lists files directory stems) ∧ answer = .error .unreadable ∧
          changed = store) ∨
        ∃ stems loaded, Lists files directory stems ∧
          Loads files (stems.mapIdx fun n => sourceIn directory (fresh n)) loaded answer ∧
          changed.Extends store loaded) ∧
    ∀ (directory : Option Path) (paths : List Path) (store : Store),
      ofFiles files directory paths fresh = .ok store ↔
        ∃ listed loaded, Gathers files fresh directory listed ∧
          List.Forall₂ (Supplies files)
            (listed ++ paths.mapIdx fun n => sourceAt (fresh (n + listed.length))) loaded ∧
          store.Extends {} loaded :=
  ⟨fun _ _ _ _ => loadDirectory_eq_iff, fun _ _ _ => ofFiles_eq_ok_iff⟩

def unnamedFile : Files :=
  ⟨[([[255] ++ FileName.ofText ".json"], .file (some "\x7b\"effect\":\"deny\"\x7d"))]⟩

def unvaluedText : String := "\x7b\"effect\":\"deny\",\"n\":1e999\x7d"

def unvaluedFile : Files := ⟨[([.ofText "p.json"], .file (some unvaluedText))]⟩

theorem lists_single (stem : FileName) (h : stem ≠ []) (content : Option String) :
    Lists ⟨[([stem ++ .ofText ".json"], .file content)]⟩ [] [stem] := by
  refine .intro rfl rfl (List.pairwise_singleton _ _) fun other => ?_
  rw [List.mem_singleton]
  constructor
  · rintro rfl
    exact ⟨h, _, List.mem_singleton_self _⟩
  · rintro ⟨-, entry, hentry⟩
    obtain ⟨hname, -⟩ := Prod.mk.inj (List.mem_singleton.mp hentry)
    exact List.append_cancel_right (List.singleton_injective hname)

theorem exists_ofText_unvaluedText : ∃ policy, Policy.ofText unvaluedText = .ok policy := by
  have hpolicy : (Policy.ofText unvaluedText).toOption.isSome = true := by decide +kernel
  obtain ⟨policy, hpolicy⟩ := Option.isSome_iff_exists.mp hpolicy
  exact ⟨policy, eq_ok_of_toOption hpolicy⟩

theorem exists_document_unvaluedText : ∃ doc : Json.Document, doc.OfText unvaluedText := by
  have hname : Json.SpellsString "\"n\":1e999\x7d".toList (some "n") ":1e999\x7d".toList :=
    .of_plain "n".toList rfl (by simp)
  have hnumber : Parsed.Finds (Json.Token.numberParts (Json.Token.skipSpaces "1e999\x7d".toList))
      ⟨false, ['1'], none, some (false, ['9', '9', '9'])⟩ ['}'] := ⟨by decide, rfl⟩
  exact ⟨.object [(some "effect", .string (some "deny")),
      (some "n", .number ⟨false, ['1'], none, some (false, ['9', '9', '9'])⟩)],
    [], .object rfl (.some (entry_effect .deny ",\"n\":1e999\x7d".toList)
      (.more rfl (.intro hname rfl (.number hnumber)) (.done rfl))), rfl⟩

/-- The only declaration of a directory is stored, but not under its stem, which is no text; or it
is a policy in JSON text under an identifier that is one, and not stored. -/
theorem loadDirectory_unnamed_and_unvalued :
    (Lists unnamedFile [] [[255]] ∧ (¬∃ id, FileName.ofText id = [255]) ∧
      (({} : Store).loadDirectory unnamedFile []).1 = .ok ["<generated-1>"]) ∧
    (Lists unvaluedFile [] [.ofText "p"] ∧
      unvaluedFile.read? (.ofText "p.json") = some unvaluedText ∧
      (∃ doc : Json.Document, doc.OfText unvaluedText) ∧
      (∃ policy, Policy.ofText unvaluedText = .ok policy) ∧
      ({} : Store).loadDirectory unvaluedFile [] = (.error .malformedJson, {})) := by
  have hloads : (({} : Store).loadDirectory unnamedFile []).1.toOption =
      some ["<generated-1>"] := by decide +kernel
  have hnoText : ¬∃ id, FileName.ofText id = [255] := by
    rintro ⟨id, hid⟩
    have hnone : FileName.text? [255] = none := by decide
    exact nomatch hnone.symm.trans (FileName.text?_eq_some_iff.mpr hid.symm)
  have hlists : Lists unvaluedFile [] [.ofText "p"] := lists_single (.ofText "p") (by decide) _
  have hmalformed : Json.parse? unvaluedText = none := by decide +kernel
  refine ⟨⟨lists_single _ (List.cons_ne_nil _ _) _, hnoText, eq_ok_of_toOption hloads⟩,
    hlists, rfl, exists_document_unvaluedText, exists_ofText_unvaluedText, ?_⟩
  exact loadDirectory_eq_iff.mpr (.inr
    ⟨_, [], hlists, .upTo .nil (.malformed rfl hmalformed), fun _ => rfl⟩)

end Store

end Abac
