import SeriesQuery.Execution.Run
import SeriesQuery.Settings.Basic
import SeriesQuery.Service.MediaType

/-!
# The service

The service answers calls over the web: it runs statements, describes their plans and
says how it is.  A statement comes as the only member of a JSON object.  Every refusal
has a list of messages and a name by which it can be found in the log.
-/

namespace SeriesQuery.Service

open SeriesQuery.Json
open SeriesQuery.Backend (Request)
open SeriesQuery.Execution (Respond)

/-- What somebody asks of the service. -/
structure Call where
  method : String
  target : String
  headers : List (String × String)
  body : String
  deriving DecidableEq, Repr

/-- What the service answers. -/
structure Answer where
  status : Nat
  headers : List (String × String) := []
  body : String := ""
  deriving DecidableEq, Repr

/-- The service and its surroundings while it answers one call. -/
structure Site where
  settings : ServiceSettings
  backendUrl : String
  combiners : Combiners
  /-- How long a statement may take, in milliseconds. -/
  timeoutMillis : Nat
  respond : Respond
  now : Time.Instant
  uptimeSeconds : Nat
  requestId : String

/-- The version that the service tells. -/
def version : String := "0.1.0"

namespace Call

/-- The first header of a name, whatever the case of its letters. -/
def header? (c : Call) (name : String) : Option String :=
  (c.headers.find? fun h => Text.sameIgnoringCase h.1 name).map (·.2)

/-- The path of the target: what comes before a query or a fragment, and after scheme
and host. -/
def path (c : Call) : String :=
  let s := c.target.toList.takeWhile fun ch => ch != '?' && ch != '#'
  match s.dropWhile (· != ':') with
  | ':' :: '/' :: '/' :: r =>
    if s.head? == some '/' then String.ofList s
    else
      let p := r.dropWhile (· != '/')
      if p.isEmpty then "/" else String.ofList p
  | _ => String.ofList s

end Call

/-! ## Refusals -/

/-- Why a body holds no statement. -/
inductive BodyFault where
  | notJson
  | tooLong
  | broken
  | unfit
  deriving DecidableEq, Repr

/-- What a message says about a body without a statement. -/
def BodyFault.message : BodyFault → String
  | notJson => "Expected request with `Content-Type: application/json`"
  | tooLong => "Failed to buffer the request body: length limit exceeded"
  | broken => "Failed to parse the request body as JSON"
  | unfit => "Failed to deserialize the JSON body into the target type"

/-- Why a call gets no result. -/
inductive CallFailure where
  | body (fault : BodyFault)
  | statement (failure : StatementFailure)
  /-- The service itself failed. -/
  | inner (why : String)
  deriving BEq, Repr

namespace CallFailure

/-- The messages of a refusal. -/
def messages : CallFailure → List String
  | body fault => ["Validation error: " ++ fault.message]
  | statement failure => failure.messages
  | inner why => ["Internal error: " ++ why]

/-- The status of a refusal: the fault is the caller's unless the service itself
failed. -/
def status : CallFailure → Nat
  | inner _ => 500
  | _ => 400

end CallFailure

/-- The body of a refusal. -/
structure RefusalBody where
  errors : List String
  requestId : String
  deriving DecidableEq, Repr

namespace RefusalBody

/-- The body as JSON. -/
def toJson (b : RefusalBody) : Value :=
  .object [("errors", Value.texts b.errors), ("request_id", .text b.requestId)]

open Decoder

/-- Members of a body read so far. -/
structure Draft where
  errors : Option (List String) := none
  requestId : Option String := none

/-- Reads one member of a body. -/
def Draft.step (depth : Nat) (d : Draft) (key : String) (t : Tree) :
    Except Problem Draft :=
  match key with
  | "errors" =>
    return { d with errors := ← once d.errors (Decoder.list Decoder.text) depth t }
  | "request_id" =>
    return { d with requestId := ← once d.requestId Decoder.text depth t }
  | _ => do
    skipped t
    return d

/-- The body of a refusal. -/
def decoder : Decoder RefusalBody :=
  record ["errors", "request_id"] {} Draft.step fun d => do
    return ⟨← required d.errors, ← required d.requestId⟩

end RefusalBody

/-! ## Statements in bodies -/

section
open Decoder

/-- Reads one member of a body that holds a statement. -/
def statementStep (depth : Nat) (d : Option String) (key : String) (t : Tree) :
    Except Problem (Option String) :=
  match key with
  | "query" => once d Decoder.text depth t
  | _ => do
    skipped t
    return d

/-- The statement in a JSON text; what comes after the value is passed over. -/
def statementDecoder : Decoder String := record ["query"] none statementStep required

end

/-- The statement that a call brings. -/
def statementOf (s : Site) (c : Call) : Except CallFailure String :=
  if !(c.header? "content-type").any MediaType.isJson then .error (.body .notJson)
  else if s.settings.maxBodySize < c.body.utf8ByteSize then .error (.body .tooLong)
  else
    (decodeFirst statementDecoder c.body).mapError fun p =>
      .body (if p = .broken then .broken else .unfit)

/-! ## What is asked for -/

/-- What the service can be asked for. -/
inductive Endpoint where
  | run
  | explain
  | health
  | live
  deriving DecidableEq, Repr

namespace Endpoint

/-- What stands at a path. -/
def at? : String → Option Endpoint
  | "/api/v1/query" => some run
  | "/api/v1/query/explain" => some explain
  | "/health" => some health
  | "/health/live" => some live
  | _ => none

/-- The methods that may be used. -/
def methods : Endpoint → List String
  | run => ["POST"]
  | explain => ["POST"]
  | health => ["GET", "HEAD"]
  | live => ["GET", "HEAD"]

end Endpoint

/-- An answer whose body is JSON. -/
def jsonAnswer (status : Nat) (v : Value) : Answer :=
  ⟨status, [("content-type", "application/json")], v.compact⟩

/-- A refusal. -/
def refuse (s : Site) (f : CallFailure) : Answer :=
  jsonAnswer f.status (RefusalBody.toJson ⟨f.messages, s.requestId⟩)

/-- How the service is. -/
def healthJson (s : Site) : Value :=
  .object [("status", .text "healthy"), ("version", .text version),
    ("uptime_seconds", .nat s.uptimeSeconds), ("kairosdb", .text s.backendUrl),
    ("statement_timeout_ms", .nat s.timeoutMillis),
    ("aggregators", Value.texts s.combiners.names)]

/-- The plan of the statement that a call brings. -/
def planOf (s : Site) (c : Call) : Except CallFailure Plan := do
  let text ← statementOf s c
  (planText s.combiners s.now text).mapError .statement

/-- Runs the statement that a call brings; gives the requests made on the way, too. -/
def runCall (s : Site) (c : Call) : Answer × List Request :=
  match planOf s c with
  | .error f => (refuse s f, [])
  | .ok p =>
    let o := p.run s.respond s.timeoutMillis
    let answer :=
      match p.outcome s.timeoutMillis o with
      | .ok r => jsonAnswer 200 r.toJson
      | .error f => refuse s (.statement f)
    (answer, o.world.calls)

/-- Describes the plan of the statement that a call brings. -/
def explainCall (s : Site) (c : Call) : Answer :=
  match planOf s c with
  | .error f => refuse s f
  | .ok p => jsonAnswer 200 p.describe.toJson

/-- The answer to a call, without what is said to pages of other origins. -/
def route (s : Site) (c : Call) : Answer × List Request :=
  match Endpoint.at? c.path with
  | none => ({ status := 404 }, [])
  | some e =>
    if !e.methods.contains c.method then
      ({ status := 405, headers := [("allow", ",".intercalate e.methods)] }, [])
    else
      let (answer, calls) :=
        match e with
        | .run => runCall s c
        | .explain => (explainCall s c, [])
        | .health => (jsonAnswer 200 (healthJson s), [])
        | .live => ({ status := 200 }, [])
      (if c.method = "HEAD" then { answer with body := "" } else answer, calls)

/-- The origin that may read an answer: all of them unless some are listed. -/
def allowedOrigin? (s : Site) (c : Call) : Option String :=
  if s.settings.origins.isEmpty then some "*"
  else (c.header? "origin").filter s.settings.origins.contains

/-- Answers a call, and gives the requests made on the way.  A call that only asks what
is allowed is answered at once, whatever its path. -/
def answer (s : Site) (c : Call) : Answer × List Request :=
  let (a, calls) := if c.method = "OPTIONS" then ({ status := 200 }, []) else route s c
  let origin := (allowedOrigin? s c).map fun o => ("access-control-allow-origin", o)
  ({ a with headers := a.headers ++ origin.toList }, calls)

end SeriesQuery.Service
