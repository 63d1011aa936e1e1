import SeriesQuery.Backend.Address
import SeriesQuery.Execution.Failure

/-!
# Asking the backend

A request is sent as JSON to a fixed place below the address of the backend.  A request
with faults is not sent.  What comes back is judged by its status first; the text of an
answer has to have the form of answers, the text of a refusal may be anything.
-/

namespace SeriesQuery.Backend

/-- What becomes of a request that is sent. -/
inductive Exchange where
  | unreachable
  | late
  /-- A status and a text; none when the text was cut short. -/
  | replied (status : Nat) (body : Option String)

/-- What a request that was sent comes to. -/
def Exchange.outcome : Exchange → Except BackendFault Response
  | unreachable => .error .unavailable
  | late => .error .timedOut
  | replied status body =>
    if 200 ≤ status && status < 300 then
      match body with
      | none => .error .notSent
      | some text =>
        (Json.decodeText Response.decoder text).mapError fun _ => .unreadable
    else .error (.refused status (body.getD ""))

/-- Asks the backend at an address. -/
def ask (base : String) (send : (address body : String) → Exchange) (r : Request) :
    Except BackendFault Response :=
  let address := queryAddress base
  if !r.isValid then .error (.invalidRequest r.faults)
  else if !isWebAddress address then .error .notSent
  else (send (String.ofList address) r.toJson.compact).outcome

end SeriesQuery.Backend
