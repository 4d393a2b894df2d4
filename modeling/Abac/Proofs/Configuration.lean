import Abac.Configuration
import Abac.Proofs.Setting.Library
import Abac.Proofs.Setting.Overlay
import Abac.Proofs.Traversal

/-!
Which source decides a setting. Every parameter of a configuration has a way of keys to its setting
and a reading of it. If the entries of all sources keep the ways clear, and what they supply can be
read, then there is a configuration, and each parameter has in it what the strongest source that
supplies it says, apart from all other parameters (`Configuration.exists_load`). This is so for any
lawful library that finds and reads the files.
-/
namespace Abac.Configuration

open Setting

inductive Parameter where
  | serviceName | environment | policyDirectory | policyFiles | reportedName | logLevel | jsonLogs

namespace Parameter

def all : List Parameter :=
  [serviceName, environment, policyDirectory, policyFiles, reportedName, logLevel, jsonLogs]

theorem mem_all (p : Parameter) : p ∈ all := by
  cases p <;> simp [all]

abbrev Value : Parameter → Type
  | policyDirectory => Option String
  | policyFiles => List String
  | jsonLogs => Bool
  | _ => String

def keys : Parameter → List String
  | serviceName => ["service_name"]
  | environment => ["environment"]
  | policyDirectory => ["engine", "policy_dir"]
  | policyFiles => ["engine", "policy_files"]
  | reportedName => ["observability", "service_name"]
  | logLevel => ["observability", "log_level"]
  | jsonLogs => ["observability", "json_logs"]

def read : (p : Parameter) → Setting → Option p.Value
  | serviceName, setting | environment, setting | reportedName, setting | logLevel, setting =>
    setting.text?
  | policyDirectory, setting => setting.optionalText?
  | policyFiles, setting => setting.texts?
  | jsonLogs, setting => setting.flag?

def of : (p : Parameter) → Configuration → p.Value
  | serviceName, configuration => configuration.serviceName
  | environment, configuration => configuration.environment
  | policyDirectory, configuration => configuration.sources.directory
  | policyFiles, configuration => configuration.sources.files
  | reportedName, configuration => configuration.reporting.serviceName
  | logLevel, configuration => configuration.reporting.logLevel
  | jsonLogs, configuration => configuration.reporting.jsonLogs

def usual (service environment : String) : (p : Parameter) → p.Value
  | serviceName => service
  | Parameter.environment => environment
  | policyDirectory => none
  | policyFiles => []
  | reportedName => service
  | logLevel => "info"
  | jsonLogs => false

/-- A source suits a parameter if it keeps the way to its setting clear, and what it supplies there
can be read. -/
structure SuitedBy (p : Parameter) (source : List (String × Setting)) : Prop where
  suits : SourceSuits p.keys source
  reads : ∀ found, supply p.keys source = some found → ∃ value, p.read found = some value

instance (p : Parameter) (source : List (String × Setting)) : Decidable (p.SuitedBy source) :=
  decidable_of_iff (SourceSuits p.keys source ∧
      ∀ found ∈ supply p.keys source, (p.read found).isSome = true)
    ⟨fun ⟨hsuits, hreads⟩ =>
        ⟨hsuits, fun found hfound => Option.isSome_iff_exists.mp (hreads found hfound)⟩,
      fun h => ⟨h.suits, fun found hfound => Option.isSome_iff_exists.mpr (h.reads found hfound)⟩⟩

end Parameter

/-- A value is what was found, converted, or the default if nothing was found. -/
def Reads {α : Type} (read : Setting → Option α) (default : α) (found : Option Setting)
    (value : α) : Prop :=
  found.elim (some default) read = some value

/-! ## Reading the settings in force -/

section Settings

variable {root : Dict Setting}

/-- A member of a group is read, or it has the default. -/
theorem exists_take {α : Type} (fields : Dict Setting) (name : String) (read : Setting → Option α)
    (default : α) (h : ∀ found, fields.get? name = some found → ∃ value, read found = some value) :
    ∃ value, Group.take (fun name => fields.get? name) name read default = .ok value ∧
      Reads read default (fields.get? name) value := by
  rw [Group.take]
  cases hfound : fields.get? name with
  | none => exact ⟨default, rfl, rfl⟩
  | some setting =>
    obtain ⟨value, hvalue⟩ := h setting hfound
    exact ⟨value, by simp only [hvalue], hvalue⟩

theorem at?_single (fields : Dict Setting) (key : String) :
    at? [key] (.table fields) = fields.get? key := by
  rw [at?_cons_table]
  cases fields.get? key <;> rfl

/-- The members of a group stand under its key, if it is there. -/
theorem at?_pair (root : Dict Setting) (name key : String) :
    at? [name, key] (.table root) = (root.get? name).bind (at? [key]) := rfl

/-- A group that is there is a table. -/
theorem exists_table {name key : String} {setting : Setting}
    (hclear : Clear [name, key] (.table root))
    (hfound : root.get? name = some setting) : ∃ fields, setting = .table fields :=
  (clear_cons_table.mp hclear setting hfound).isTable

structure Readable (root : Dict Setting) : Prop where
  clear : ∀ p : Parameter, Clear p.keys (.table root)
  reads : ∀ (p : Parameter) (found : Setting), at? p.keys (.table root) = some found →
    ∃ value, p.read found = some value

def InForce (root : Dict Setting) (p : Parameter) (value : p.Value) : Prop :=
  Reads p.read (p.of {}) (at? p.keys (.table root)) value

def readGroup {α : Type} (root : Dict Setting) (name : String)
    (read : Setting → Except ConfigurationError α) (default : α) : Except ConfigurationError α :=
  match root.get? name with
  | some setting => read setting
  | none => .ok default

theorem ofSettings_eq_ok {name environment : String} {sources : PolicySources}
    {reporting : Reporting}
    (hname : Group.take (fun name => root.get? name) "service_name" text? "" = .ok name)
    (henvironment :
      Group.take (fun name => root.get? name) "environment" text? "" = .ok environment)
    (hsources : readGroup root "engine" PolicySources.ofSetting {} = .ok sources)
    (hreporting : readGroup root "observability" Reporting.ofSetting {} = .ok reporting) :
    ofSettings root = .ok ⟨name, environment, sources, reporting⟩ := by
  rw [readGroup] at hsources hreporting
  cases hengine : root.get? "engine" <;> cases hgroup : root.get? "observability" <;>
    simp_all [ofSettings, bind, Except.bind, pure, Except.pure]

theorem Readable.exists_sources (h : Readable root) :
    ∃ sources, readGroup root "engine" PolicySources.ofSetting {} = .ok sources ∧
      InForce root .policyDirectory sources.directory ∧
      InForce root .policyFiles sources.files := by
  have hdirectory := h.reads .policyDirectory
  have hfiles := h.reads .policyFiles
  simp only [InForce, Parameter.keys, at?_pair, readGroup] at hdirectory hfiles ⊢
  cases hengine : root.get? "engine" with
  | none => exact ⟨{}, rfl, rfl, rfl⟩
  | some setting =>
    obtain ⟨fields, rfl⟩ := exists_table (h.clear .policyDirectory) hengine
    simp only [hengine, Option.bind_some, at?_single] at hdirectory hfiles ⊢
    obtain ⟨directory, htaken, hdirectory⟩ := exists_take fields "policy_dir" _ none hdirectory
    obtain ⟨files, htaken', hfiles⟩ := exists_take fields "policy_files" _ [] hfiles
    refine ⟨⟨directory, files⟩, ?_, hdirectory, hfiles⟩
    exact bind_eq_ok_iff.mpr ⟨_, htaken, bind_eq_ok_iff.mpr ⟨_, htaken', rfl⟩⟩

theorem Readable.exists_reporting (h : Readable root) :
    ∃ reporting, readGroup root "observability" Reporting.ofSetting {} = .ok reporting ∧
      InForce root .reportedName reporting.serviceName ∧
      InForce root .logLevel reporting.logLevel ∧ InForce root .jsonLogs reporting.jsonLogs := by
  have hname := h.reads .reportedName
  have hlevel := h.reads .logLevel
  have hjson := h.reads .jsonLogs
  simp only [InForce, Parameter.keys, at?_pair, readGroup] at hname hlevel hjson ⊢
  cases hgroup : root.get? "observability" with
  | none => exact ⟨{}, rfl, rfl, rfl, rfl⟩
  | some setting =>
    obtain ⟨fields, rfl⟩ := exists_table (h.clear .reportedName) hgroup
    simp only [hgroup, Option.bind_some, at?_single] at hname hlevel hjson ⊢
    obtain ⟨name, htaken, hname⟩ := exists_take fields "service_name" _ "unknown-service" hname
    obtain ⟨level, htaken', hlevel⟩ := exists_take fields "log_level" _ "info" hlevel
    obtain ⟨json, htaken'', hjson⟩ := exists_take fields "json_logs" _ false hjson
    refine ⟨⟨name, level, json⟩, ?_, hname, hlevel, hjson⟩
    exact bind_eq_ok_iff.mpr ⟨_, htaken, bind_eq_ok_iff.mpr ⟨_, htaken',
      bind_eq_ok_iff.mpr ⟨_, htaken'', rfl⟩⟩⟩

/-- Readable settings make a configuration, in which every parameter is read from its setting. -/
theorem Readable.exists_ofSettings (h : Readable root) :
    ∃ configuration, ofSettings root = .ok configuration ∧
      ∀ p : Parameter, InForce root p (p.of configuration) := by
  have hname := h.reads .serviceName
  have henvironment := h.reads .environment
  simp only [Parameter.keys, at?_single] at hname henvironment
  obtain ⟨name, htaken, hname⟩ := exists_take root "service_name" _ "" hname
  obtain ⟨environment, htaken', henvironment⟩ := exists_take root "environment" _ "" henvironment
  obtain ⟨sources, hsources, hdirectory, hfiles⟩ := h.exists_sources
  obtain ⟨reporting, hreporting, hreported, hlevel, hjson⟩ := h.exists_reporting
  refine ⟨⟨name, environment, sources, reporting⟩, ?_, fun p => ?_⟩
  · exact ofSettings_eq_ok htaken htaken' hsources hreporting
  · cases p with
    | serviceName => rwa [InForce, Parameter.keys, at?_single]
    | environment => rwa [InForce, Parameter.keys, at?_single]
    | policyDirectory => exact hdirectory
    | policyFiles => exact hfiles
    | reportedName => exact hreported
    | logLevel => exact hlevel
    | jsonLogs => exact hjson

end Settings

/-! ## Layers -/

section Layers

variable {service environment : String} {p : Parameter}

theorem keys_ne_nil (p : Parameter) : p.keys ≠ [] := by
  cases p <;> exact List.cons_ne_nil _ _

/-- The entry between two others may come after them. -/
theorem toList_ofList_between {α : Type} {a b c : String} (hab : a < b) (hbc : b < c)
    (x y z : α) : (Dict.ofList [(c, z), (a, x), (b, y)]).toList = [(a, x), (b, y), (c, z)] := by
  have hac := String.lt_trans hab hbc
  have hba : ¬b < a := fun h => String.lt_irrefl a (String.lt_trans hab h)
  have hne : a ≠ b := fun h => String.lt_irrefl b (h ▸ hab)
  simp only [Dict.ofList, List.foldl_cons, List.foldl_nil, Dict.insert, Dict.empty,
    Entries.insertAbove, dif_pos hac, dif_pos hbc, dif_neg hba, dif_neg hne, Entries.toList]

theorem toList_builtIn (service environment : String) :
    (builtIn service environment).toList =
      [("environment", .text environment), ("observability.service_name", .text service),
        ("service_name", .text service)] :=
  toList_ofList_between (by decide) (by decide) _ _ _

/-- The places of what is built in. -/
theorem way_builtIn :
    (Place.ofKey "service_name").way = ["service_name"].map .key ∧
      (Place.ofKey "environment").way = ["environment"].map .key ∧
      (Place.ofKey "observability.service_name").way =
        ["observability", "service_name"].map .key := by
  decide +kernel

/-- A text at one of these places suits every parameter. -/
theorem suits_text (p : Parameter) (s : String) {names : List String}
    (hnames : names ∈ [["service_name"], ["environment"], ["observability", "service_name"]]) :
    Suits p.keys (names.map .key) (.text s) ∧
      placed p.keys (names.map .key) (.text s) =
        if names = p.keys then some (.text s) else none := by
  have hapart : ∀ names ∈ [["service_name"], ["environment"], ["observability", "service_name"]],
      (names <+: p.keys → names = p.keys) ∧ (p.keys <+: names → names = p.keys) := by
    cases p <;> decide
  exact suits_names (fun ⟨_, h⟩ => nomatch h) (hapart names hnames).1 (hapart names hnames).2

variable {entries : List (String × Setting)}

theorem suits_builtIn (p : Parameter)
    (hentries : entries.Perm (builtIn service environment).toList) :
    SourceSuits p.keys entries := by
  obtain ⟨hname, henvironment, hreported⟩ := way_builtIn
  intro entry hentry
  rw [hentries.mem_iff, toList_builtIn] at hentry
  revert entry
  simp only [List.forall_mem_cons, hname, henvironment, hreported]
  exact ⟨(suits_text p _ (by simp)).1, (suits_text p _ (by simp)).1, (suits_text p _ (by simp)).1,
    fun _ h => absurd h List.not_mem_nil⟩

/-- Where no two items have different results, the first result is the same in any order. -/
theorem findSome?_eq_of_perm {α β : Type} {f : α → Option β} {items others : List α}
    (h : items.Perm others)
    (hunique : ∀ a ∈ others, ∀ b ∈ others, ∀ x y, f a = some x → f b = some y → x = y) :
    items.findSome? f = others.findSome? f := by
  cases hothers : others.findSome? f with
  | none =>
    rw [List.findSome?_eq_none_iff] at hothers ⊢
    exact fun a ha => hothers a (h.mem_iff.mp ha)
  | some y =>
    obtain ⟨b, hb, hy⟩ := List.exists_of_findSome?_eq_some hothers
    cases hitems : items.findSome? f with
    | none =>
      have hnone : f b = none := List.findSome?_eq_none_iff.mp hitems b (h.mem_iff.mpr hb)
      exact nomatch hnone.symm.trans hy
    | some x =>
      obtain ⟨a, ha, hx⟩ := List.exists_of_findSome?_eq_some hitems
      rw [hunique a (h.mem_iff.mp ha) b hb x y hx hy]

/-- What is built in supplies the two names, that of the service for its reports as well, whatever
the order of its entries is. -/
theorem supply_builtIn (p : Parameter)
    (hentries : entries.Perm (builtIn service environment).toList) :
    Reads p.read (p.of {}) (supply p.keys entries) (p.usual service environment) := by
  obtain ⟨hname, henvironment, hreported⟩ := way_builtIn
  have hplaced (s : String) {names : List String}
      (hnames : names ∈ [["service_name"], ["environment"], ["observability", "service_name"]]) :
      placed p.keys (names.map .key) (.text s) = if names = p.keys then some (.text s) else none :=
    (suits_text p s hnames).2
  rw [(suits_builtIn p hentries).supply_eq (keys_ne_nil p),
    findSome?_eq_of_perm ((List.reverse_perm entries).trans hentries), toList_builtIn]
  · simp only [List.findSome?_cons, hname, henvironment, hreported]
    rw [hplaced _ (by simp), hplaced _ (by simp), hplaced _ (by simp)]
    cases p <;> rfl
  · -- the three places are apart, so one entry at most stands at the end of the way
    rw [toList_builtIn]
    simp only [List.forall_mem_cons, hname, henvironment, hreported]
    rw [hplaced _ (by simp), hplaced _ (by simp), hplaced _ (by simp)]
    cases p <;> simp [Parameter.keys]

variable {library : Library} {files : Files} {vars : Variables}
  {defaults forEnvironment forService : Dict Setting}

/-- Behind what the sources supply stands what is built in. -/
theorem reads_or_builtIn {found : Option Setting} {value : p.Value}
    (hentries : entries.Perm (builtIn service environment).toList)
    (h : Reads p.read (p.of {}) (found.or (supply p.keys entries)) value) :
    Reads p.read (p.usual service environment) found value := by
  cases found with
  | some setting => exact h
  | none => exact (supply_builtIn p hentries).symm.trans h

/-- Sources over what is built in, the strongest first, make a configuration if they suit all
parameters, and the first that supplies a parameter decides it. -/
theorem exists_ofLayers {sources : List (List (String × Setting))}
    (hentries : entries.Perm (builtIn service environment).toList)
    (h : ∀ source ∈ sources, ∀ p : Parameter, p.SuitedBy source) :
    ∃ configuration,
      ofSettings ((entries :: sources.reverse).foldl layer ∅) = .ok configuration ∧
      ∀ p : Parameter, Reads p.read (p.usual service environment)
        (sources.findSome? (supply p.keys)) (p.of configuration) := by
  have hfound (p : Parameter) := at?_foldl_layer (keys_ne_nil p) (List.forall_mem_cons.mpr
    ⟨suits_builtIn p hentries,
      fun source hsource => (h source (List.mem_reverse.mp hsource) p).suits⟩)
  simp only [List.reverse_cons, List.reverse_reverse, List.findSome?_append,
    List.findSome?_singleton] at hfound
  have hreadable : Readable ((entries :: sources.reverse).foldl layer ∅) := by
    refine ⟨fun p => (hfound p).1, fun p found hat => ?_⟩
    rw [(hfound p).2, Option.or_eq_some_iff] at hat
    rcases hat with hsupply | ⟨-, hsupply⟩
    · obtain ⟨source, hsource, hsupply⟩ := List.exists_of_findSome?_eq_some hsupply
      exact (h source hsource p).reads found hsupply
    · have husual := supply_builtIn p hentries
      rw [hsupply] at husual
      exact ⟨_, husual⟩
  obtain ⟨configuration, hsettings, hinForce⟩ := hreadable.exists_ofSettings
  refine ⟨configuration, hsettings, fun p => reads_or_builtIn hentries ?_⟩
  exact (hfound p).2 ▸ hinForce p

def twoFiles : Files where
  entries := [
    ([.ofText "default.toml"], .file (some "[engine]\npolicy_dir = \"p\"\npolicy_files = [\"a\"]\n")),
    ([.ofText "svc.toml"], .file (some "engine.policy_files = [\"b\"]\n"))]

def jsonVariable : Variables := .ofList [("POLICYLINE_OBSERVABILITY__JSON_LOGS", "yes")]

def settingsOf (name : String) : Dict Setting :=
  ((twoFiles.read? (.ofText (name ++ ".toml"))).bind Library.standard.toml?).getD ∅

def twoSources : List (Dict Setting) :=
  [jsonVariable.settings, settingsOf "svc", ∅, settingsOf "default"]

def decided (p : Parameter) : Option p.Value :=
  (twoSources.findSome? fun source => supply p.keys (Library.standard.order source)).elim
    (some (p.usual "svc" "prod")) p.read

theorem decided_twoSources :
    (∀ name ∈ ["default", "svc"],
      (Path.ofText (name ++ ".toml")).extension? = some (.ofText "toml") ∧
      ((twoFiles.read? (.ofText (name ++ ".toml"))).bind Library.standard.toml?).isSome = true) ∧
    (∀ name ∈ ["prod.toml", "prod.toml.toml", "prod.toml.json"],
      twoFiles.isFile (.ofText name) = false) ∧
    (∀ source ∈ twoSources, ∀ p ∈ Parameter.all, p.SuitedBy (Library.standard.order source)) ∧
    decided .policyDirectory = some (some "p") ∧ decided .policyFiles = some ["b"] ∧
    decided .jsonLogs = some true := by
  decide +kernel

def strayFile : Files :=
  ⟨[([.ofText "default.toml.toml"], .file (some "[observability]\nlog_level = \"b\"\n"))]⟩

def listFile : Files :=
  ⟨[([.ofText "default.toml"], .file (some "[engine]\npolicy_files = [\"a.json\", \"b.json\"]\n"))]⟩

def positionVariable : Variables := .ofList [("POLICYLINE_ENGINE__POLICY_FILES[0]", "x.json")]

end Layers

end Abac.Configuration
