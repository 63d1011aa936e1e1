import SeriesQuery.Decimal.Reading
import SeriesQuery.Text.Quoted

/-!
# Settings

The settings say where the backend is, how the service listens, how long a statement may
take and what is logged.  Each has a default.  Variables of the environment replace some
of them; one whose text is not a number of the right size is passed over.
-/

namespace SeriesQuery

/-- Where the backend is, and how long one of its replies may take. -/
structure BackendSettings where
  url : String := "http://localhost:8080"
  readTimeoutSecs : Nat := 30
  deriving DecidableEq, Repr

/-- How the service listens, and what it accepts. -/
structure ServiceSettings where
  host : String := "0.0.0.0"
  port : Nat := 8082
  /-- Origins from which pages may ask; all when there is none. -/
  origins : List String := []
  maxBodySize : Nat := 65536
  deriving DecidableEq, Repr

/-- What is logged, in which form and where. -/
structure LogSettings where
  level : String := "info"
  format : String := "pretty"
  file : Option String := none
  deriving DecidableEq, Repr

/-- All settings. -/
structure Settings where
  backend : BackendSettings := {}
  service : ServiceSettings := {}
  statementTimeoutSecs : Nat := 60
  log : LogSettings := {}
  deriving DecidableEq, Repr

/-- The largest number of 64 bits. -/
def largest64 : Nat := Nat.pow 2 64 - 1

/-- The largest number of 16 bits. -/
def largest16 : Nat := Nat.pow 2 16 - 1

/-- How long one reply may take, in milliseconds; no more than 64 bits hold. -/
def BackendSettings.readTimeoutMillis (b : BackendSettings) : Nat :=
  min (b.readTimeoutSecs * 1000) largest64

/-- The address that the service listens at. -/
def ServiceSettings.address (s : ServiceSettings) : String := s!"{s.host}:{s.port}"

/-! ## Validation -/

/-- Why there are no settings. -/
inductive SettingsFault where
  | unreadable (path why : String)
  | malformed (path : String)
  | invalid (field why : String)
  deriving DecidableEq, Repr

/-- What a message says about settings that are not there. -/
def SettingsFault.message : SettingsFault → String
  | unreadable path why => s!"Failed to read config file {Text.quotedPath path}: {why}"
  | malformed path => s!"Failed to parse config file {Text.quotedPath path}"
  | invalid field why => s!"Invalid setting {field}: {why}"

namespace Settings

/-- The first setting that nothing can be done with. -/
def fault? (s : Settings) : Option SettingsFault :=
  if !s.backend.url.startsWith "http://" && !s.backend.url.startsWith "https://" then
    some (.invalid "kairosdb.url" s!"'{s.backend.url}' is not an http(s) URL")
  else if s.statementTimeoutSecs = 0 then
    some (.invalid "query.statement_timeout_secs" "must be greater than zero")
  else if s.log.format != "pretty" && s.log.format != "json" then
    some (.invalid "logging.format"
      s!"unknown format '{s.log.format}', use pretty or json")
  else none

/-- The settings themselves, unless nothing can be done with one of them. -/
def checked (s : Settings) : Except SettingsFault Settings :=
  match s.fault? with
  | some f => .error f
  | none => .ok s

/-! ## The environment -/

/-- A number in a variable, if it is one of the right size. -/
def numberIn (limit : Nat) (lookup : Option String) (default : Nat) : Nat :=
  (lookup.bind (Decimal.readNat? limit)).getD default

/-- The settings with those that the environment replaces. -/
def withVariables (s : Settings) (lookup : String → Option String) : Settings where
  backend :=
    { url := (lookup "MQL_KAIROSDB_URL").getD s.backend.url
      readTimeoutSecs :=
        numberIn largest64 (lookup "MQL_KAIROSDB_READ_TIMEOUT_SECS")
          s.backend.readTimeoutSecs }
  service :=
    { s.service with
      host := (lookup "MQL_API_HOST").getD s.service.host
      port := numberIn largest16 (lookup "MQL_API_PORT") s.service.port }
  statementTimeoutSecs :=
    numberIn largest64 (lookup "MQL_STATEMENT_TIMEOUT_SECS") s.statementTimeoutSecs
  log :=
    { s.log with
      level := (lookup "MQL_LOG_LEVEL").getD s.log.level
      format := (lookup "MQL_LOG_FORMAT").getD s.log.format }

/-- The settings that the environment alone gives. -/
def ofVariables (lookup : String → Option String) : Settings :=
  withVariables {} lookup

end Settings

end SeriesQuery
