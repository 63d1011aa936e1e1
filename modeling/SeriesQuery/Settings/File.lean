import SeriesQuery.Settings.Basic
import SeriesQuery.Toml.Document

/-!
# Settings in files

A settings file has a section for each group of settings; what it does not say keeps its
default, and what it says beside the settings is passed over.  A section may also be
written as an array of its values in their order.  The settings of a file are judged as
the file gives them, before the environment replaces any.
-/

namespace SeriesQuery

open SeriesQuery.Toml (Members)

/-! ## Sections -/

/-- A text. -/
def textSetting? : Toml.Value → Option String
  | .text s => some s
  | _ => none

/-- A natural number up to a limit. -/
def numberSetting? (limit : Nat) : Toml.Value → Option Nat
  | .integer n => if 0 ≤ n && n ≤ limit then some n.toNat else none
  | _ => none

/-- Texts. -/
def textsSetting? : Toml.Value → Option (List String)
  | .array vs => vs.mapM textSetting?
  | .rows [] => some []
  | _ => none

/-- The members of a section with these keys.  An array gives the values of the keys in
their order, at least the first `least` of them.  A date or time gives none of them. -/
def sectionMembers? (keys : List String) (least : Nat) : Toml.Value → Option Members
  | .table _ ms => some ms
  | .array vs => if vs.length < least then none else some (keys.zip vs)
  | .rows ts =>
    if ts.length < least then none else some (keys.zip (ts.map (.table .header)))
  | .moment _ => some []
  | _ => none

/-- The value of a key, which has to be of the right form when it is there. -/
def setting? {α : Type} (read? : Toml.Value → Option α) (ms : Members) (key : String)
    (default : α) : Option α :=
  match ms.get? key with
  | some v => read? v
  | none => some default

/-- Where the backend is. -/
def BackendSettings.ofToml? (v : Toml.Value) : Option BackendSettings := do
  let d : BackendSettings := {}
  let ms ← sectionMembers? ["url", "read_timeout_secs"] 0 v
  let url ← setting? textSetting? ms "url" d.url
  let secs ← setting? (numberSetting? largest64) ms "read_timeout_secs"
      d.readTimeoutSecs
  return ⟨url, secs⟩

/-- How the service listens. -/
def ServiceSettings.ofToml? (v : Toml.Value) : Option ServiceSettings := do
  let d : ServiceSettings := {}
  let ms ← sectionMembers? ["host", "port", "cors_origins", "max_body_size"] 0 v
  let host ← setting? textSetting? ms "host" d.host
  let port ← setting? (numberSetting? largest16) ms "port" d.port
  let origins ← setting? textsSetting? ms "cors_origins" d.origins
  let size ← setting? (numberSetting? largest64) ms "max_body_size" d.maxBodySize
  return ⟨host, port, origins, size⟩

/-- How long a statement may take. -/
def statementTimeout? (v : Toml.Value) : Option Nat := do
  let ms ← sectionMembers? ["statement_timeout_secs"] 0 v
  setting? (numberSetting? largest64) ms "statement_timeout_secs"
    ({} : Settings).statementTimeoutSecs

/-- What is logged; an array has to give all three values. -/
def LogSettings.ofToml? (v : Toml.Value) : Option LogSettings := do
  let d : LogSettings := {}
  let ms ← sectionMembers? ["level", "format", "file"] 3 v
  let level ← setting? textSetting? ms "level" d.level
  let format ← setting? textSetting? ms "format" d.format
  let file ← setting? (fun v => (textSetting? v).map some) ms "file" d.file
  return ⟨level, format, file⟩

namespace Settings

/-- The settings in a table. -/
def ofToml? (ms : Members) : Option Settings := do
  let d : Settings := {}
  let backend ← setting? BackendSettings.ofToml? ms "kairosdb" d.backend
  let service ← setting? ServiceSettings.ofToml? ms "api" d.service
  let timeout ← setting? statementTimeout? ms "query" d.statementTimeoutSecs
  let log ← setting? LogSettings.ofToml? ms "logging" d.log
  return ⟨backend, service, timeout, log⟩

/-! ## Files -/

/-- The settings in the text of a file. -/
def ofText (path text : String) : Except SettingsFault Settings :=
  match (Toml.read? text).bind ofToml? with
  | some s => s.checked
  | none => .error (.malformed path)

/-- The settings in the text of a file, with those that the environment replaces. -/
def ofTextAndVariables (lookup : String → Option String) (path text : String) :
    Except SettingsFault Settings :=
  (ofText path text).map fun s => s.withVariables lookup

/-- The settings in the first of some texts that holds any, with those that the
environment replaces; the environment alone when there is none. -/
def search (lookup : String → Option String) : List String → Settings
  | [] => ofVariables lookup
  | text :: rest =>
    match ofTextAndVariables lookup "" text with
    | .ok s => s
    | .error _ => search lookup rest

/-- The lines of a settings file that says what holds anyway. -/
def sampleLines : List String := [
  "# MQL Configuration",
  "#",
  "# Environment variables override these settings:",
  "# - MQL_KAIROSDB_URL",
  "# - MQL_KAIROSDB_READ_TIMEOUT_SECS",
  "# - MQL_API_HOST",
  "# - MQL_API_PORT",
  "# - MQL_STATEMENT_TIMEOUT_SECS",
  "# - MQL_LOG_LEVEL",
  "# - MQL_LOG_FORMAT",
  "",
  "[kairosdb]",
  "# Base URL of the KairosDB server",
  "url = \"http://localhost:8080\"",
  "",
  "# Per-request read timeout (seconds)",
  "read_timeout_secs = 30",
  "",
  "[api]",
  "# API server host",
  "host = \"0.0.0.0\"",
  "",
  "# API server port",
  "port = 8082",
  "",
  "# Allowed CORS origins (empty allows any origin)",
  "cors_origins = []",
  "",
  "# Maximum request body size (bytes)",
  "max_body_size = 65536",
  "",
  "[query]",
  "# Deadline for one statement execution (seconds)",
  "statement_timeout_secs = 60",
  "",
  "[logging]",
  "# Log level: trace, debug, info, warn, error",
  "level = \"info\"",
  "",
  "# Log format: pretty (for development) or json (for production)",
  "format = \"pretty\"",
  "",
  "# Optional log file path",
  "# file = \"/var/log/mql/mql.log\""]

/-- A settings file that says what holds anyway. -/
def sampleText : String := "\n".intercalate sampleLines ++ "\n"

end Settings

end SeriesQuery
