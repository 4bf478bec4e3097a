import RulesEnrichment.Model.OrderDecoder
import RulesEnrichment.OrderUrl
import RulesEnrichment.RetryPolicy

/-! # The HTTP client

    `ManhattanSimulatorHttpClient`, from its methods down to what goes out.
    A `Network` says what comes of each attempt of a request; every request
    that was sent is kept as an `Exchange`, with what came of it.

    The texts that `httpx` gives a status error, and `response.json()`,
    belong to the network: the code uses them as they come. -/

namespace RulesEnrichment

open Python

/-! ## Requests on the wire -/

/-- The arguments of `httpx.Client.request`. -/
structure OutgoingRequest extends Request where
  headers : List (String × String)
  params : List (String × PyVal)
  json : Option PyVal

/-- What the environment does with the requests of one `_request`. -/
structure Network where
  /-- What an attempt comes to. -/
  answer : OutgoingRequest → Nat → Outcome
  /-- `random.uniform(0, base_delay_seconds)`, attempt by attempt. -/
  jitter : Nat → ℚ
  /-- The message of the error that `raise_for_status` raises. -/
  statusMessage : Response → String

/-- A request that was sent, and what came of it. -/
structure Exchange where
  request : OutgoingRequest
  outcome : Outcome

/-- `response.is_success` -/
def Response.isSuccess (r : Response) : Bool := 200 ≤ r.statusCode ∧ r.statusCode < 300

/-- The server answered with a success. -/
def Exchange.acknowledged (e : Exchange) : Bool :=
  match e.outcome with
  | .response r => r.isSuccess
  | .raised _ => false

/-- The request has the correlation id in its header. -/
def Exchange.carries (id : String) (e : Exchange) : Bool :=
  e.request.headers.lookup "X-Correlation-ID" = some id

/-- `response.raise_for_status()` -/
def Network.raiseForStatus (net : Network) (r : Response) : Except HttpError Response :=
  if r.isSuccess then .ok r else .error (.status (net.statusMessage r) r.request r)

/-- The exceptions of `httpx` below `HTTPError` that are neither transport
    nor status errors. -/
def requestErrors : List ErrorClass := [.other "DecodingError", .other "TooManyRedirects"]

/-- The `except` clauses of `_request`. -/
def HttpError.toDaemonError : HttpError → PyErr
  | .timeout msg => ⟨.ExternalApiTimeoutError, msg⟩
  | .transport msg => ⟨.ExternalApiUnavailableError, msg⟩
  | .status msg _ _ => ⟨.ExternalApiUnavailableError, msg⟩
  -- what is no `HTTPError` passes through
  | .other e => if e.cls ∈ requestErrors then ⟨.ExternalApiUnavailableError, e.msg⟩ else e

/-! ## The client -/

structure ManhattanSimulatorHttpClient where
  baseUrl : String
  apiKey : String
  retry : RetryPolicy

/-- `Bootstrap.external_wms` -/
def externalWms (baseUrl apiKey : String) : ManhattanSimulatorHttpClient :=
  ⟨baseUrl, apiKey, { maxAttempts := 3 }⟩

namespace ManhattanSimulatorHttpClient

variable (client : ManhattanSimulatorHttpClient) (net : Network)

/-- The headers that go out: those of the caller, and the API key if there
    is one. -/
def headers (own : List (String × String)) : List (String × String) :=
  own ++ if client.apiKey = "" then [] else [("X-API-Key", client.apiKey)]

/-- The attempts that the retry policy made, one exchange for each call. -/
def exchanges (req : OutgoingRequest) (events : List Event) : List Exchange :=
  (List.range' 1 (events.count .call)).map fun attempt => ⟨req, net.answer req attempt⟩

/-- `_request`, once the request is put together. -/
def send (req : OutgoingRequest) : Except PyErr Response × List Exchange :=
  match client.retry.run (net.answer req) net.jitter with
  | (result, events) =>
    match result >>= net.raiseForStatus with
    | .ok response => (.ok response, exchanges net req events)
    | .error exc => (.error exc.toDaemonError, exchanges net req events)

/-- `_request` -/
def request (method path : String) (own : List (String × String)) (params : List (String × PyVal))
    (json : Option PyVal) : Except PyErr Response × List Exchange :=
  client.send net ⟨⟨method, requestUrl client.baseUrl path⟩, client.headers own, params, json⟩

/-- `health_check`: true for the status 200 and no other; nothing escapes. -/
def healthCheck : Bool × List Exchange :=
  match client.request net "GET" "/health" [] [] none with
  | (.ok response, log) => (response.statusCode = 200, log)
  | (.error _, log) => (false, log)

/-- The query of `get_orders_for_enrichment`. -/
def pollParams (updatedSince : Option DateTime) (limit : Nat) : List (String × PyVal) :=
  [("status", .str "READY_FOR_ENRICHMENT"), ("limit", .int limit), ("offset", .int 0)] ++
    match updatedSince with
    | some d => [("updated_since", .str d.isoformat)]
    | none => []

/-- `get_orders_for_enrichment`; `read` is `response.json()`. -/
def pollOrders (rt : Runtime) (read : String → Except PyErr (List OrderDocument))
    (updatedSince : Option DateTime) (limit : Nat) :
    Except PyErr (List ExternalOrder) × List Exchange :=
  match client.request net "GET" "/api/v1/orders" [] (pollParams updatedSince limit) none with
  | (answer, log) => (getOrdersForEnrichment rt (answer >>= fun r => read r.content), log)

/-- The request of `submit_enrichment`. -/
def submission (orderId : String) (payload : PyVal) (correlationId : String) : OutgoingRequest :=
  ⟨⟨"POST", submitUrl client.baseUrl orderId⟩,
    client.headers [("X-Correlation-ID", correlationId)], [], some payload⟩

/-- `submit_enrichment` -/
def submitEnrichment (orderId : String) (payload : PyVal) (correlationId : String) :
    Except PyErr Unit × List Exchange :=
  match client.request net "POST" ("/api/v1/orders/" ++ orderId ++ "/enrichment")
      [("X-Correlation-ID", correlationId)] [] (some payload) with
  | (.ok _, log) => (.ok (), log)
  | (.error e, log) => (.error e, log)

/-- `health()` of `interfaces/health/api.py`: only one of its members is
    measured. -/
def health : List (String × Bool) × List Exchange :=
  match client.healthCheck net with
  | (apiOk, log) => ([("db_ok", true), ("external_api_ok", apiOk), ("rules_repo_ok", true),
      ("outbox_ok", true)], log)

end ManhattanSimulatorHttpClient

end RulesEnrichment
