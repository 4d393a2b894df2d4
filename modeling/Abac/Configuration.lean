import Abac.Setting.Source
import Abac.Setting.Variables

/-!
The configuration of a service. It is made up of layers, each set over the one before: what is built
in, the three files `default`, one for the environment and one for the service, and the variables of
the process. Settings that nothing gives a value have a default, and settings of other names are
passed over.
-/
namespace Abac

structure PolicySources where
  directory : Option String := none
  files : List String := []
deriving Repr, DecidableEq

structure Reporting where
  serviceName : String := "unknown-service"
  logLevel : String := "info"
  jsonLogs : Bool := false
deriving Repr, DecidableEq

structure Configuration where
  serviceName : String := ""
  environment : String := ""
  sources : PolicySources := {}
  reporting : Reporting := {}
deriving Repr, DecidableEq

/-- Why there is no configuration: a file is not written in its format, or a setting has a value
that does not suit it. -/
inductive ConfigurationError where
  | malformed (file : String)
  | unsuited (setting : String)
deriving Repr, DecidableEq

namespace Setting

def Group.take {α : Type} (group : Group) (name : String) (read : Setting → Option α)
    (default : α) : Except ConfigurationError α :=
  match group name with
  | none => .ok default
  | some setting =>
    match read setting with
    | some v => .ok v
    | none => .error (.unsuited name)

def optionalText? : Setting → Option (Option String)
  | .absent => some none
  | setting => setting.text?.map some

end Setting

namespace PolicySources

def ofSetting (setting : Setting) : Except ConfigurationError PolicySources :=
  match setting.group? ["policy_dir", "policy_files"] with
  | none => .error (.unsuited "engine")
  | some group => do
    let directory ← group.take "policy_dir" Setting.optionalText? none
    let files ← group.take "policy_files" Setting.texts? []
    return { directory, files }

end PolicySources

namespace Reporting

def ofSetting (setting : Setting) : Except ConfigurationError Reporting :=
  match setting.group? ["service_name", "log_level", "json_logs"] with
  | none => .error (.unsuited "observability")
  | some group => do
    let usual : Reporting := {}
    let serviceName ← group.take "service_name" Setting.text? usual.serviceName
    let logLevel ← group.take "log_level" Setting.text? usual.logLevel
    let jsonLogs ← group.take "json_logs" Setting.flag? usual.jsonLogs
    return { serviceName, logLevel, jsonLogs }

def ofVariables (service : String) (vars : Variables) : Reporting where
  serviceName := service
  logLevel := (vars.get? "RUST_LOG").getD "info"
  jsonLogs := vars.get? "JSON_LOGS" ∈ [some "true", some "1"]

end Reporting

namespace Configuration

def isProduction (configuration : Configuration) : Bool := configuration.environment = "production"

def ofSettings (root : Dict Setting) : Except ConfigurationError Configuration := do
  let group : Setting.Group := fun name => root.get? name
  let serviceName ← group.take "service_name" Setting.text? ""
  let environment ← group.take "environment" Setting.text? ""
  let sources ← match group "engine" with
    | some setting => PolicySources.ofSetting setting
    | none => .ok {}
  let reporting ← match group "observability" with
    | some setting => Reporting.ofSetting setting
    | none => .ok {}
  return { serviceName, environment, sources, reporting }

def builtIn (service environment : String) : Dict Setting :=
  .ofList [("service_name", .text service), ("environment", .text environment),
    ("observability.service_name", .text service)]

/-- The settings for a name. There need not be a file of it. -/
def ofFile (library : Setting.Library) (files : Files) (name : String) :
    Except ConfigurationError (Dict Setting) :=
  match library.source? files (name ++ ".toml") with
  | some settings => .ok settings
  | none => .error (.malformed name)

/-- The layers of settings, the weakest first. -/
def layers (library : Setting.Library) (files : Files) (service environment : String)
    (vars : Variables) : Except ConfigurationError (List (Dict Setting)) := do
  let stored ← ["default", environment, service].mapM (ofFile library files)
  return builtIn service environment :: stored ++ [vars.settings]

def load (files : Files) (service environment : String) (vars : Variables)
    (library : Setting.Library := .standard) : Except ConfigurationError Configuration := do
  let sources ← layers library files service environment vars
  ofSettings (sources.foldl (fun root source => Setting.layer root (library.order source)) ∅)

def environmentOf (vars : Variables) : String :=
  (vars.get? "POLICYLINE_ENV").getD "development"

end Configuration

end Abac
