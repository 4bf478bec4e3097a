import RulesEnrichment.Model.Facade
import RulesEnrichment.Model.HttpClient
import RulesEnrichment.Columns

/-! # The worker processes

    The outbox sinks, `OutboxPublisherWorker` and the loop of `run-daemon`,
    which polls and then publishes, round after round. Nothing in that loop
    catches an exception, so one that leaves a worker ends the process; the
    next process starts on the database that this one leaves. -/

namespace RulesEnrichment

open Python

/-! ## Sinks -/

inductive OutboxSink where
  /-- `StructuredLogOutboxSink` -/
  | structuredLog
  /-- `WebhookOutboxSink` -/
  | webhook (webhookUrl : String)

/-- `Bootstrap.outbox_sink` -/
def outboxSink (sinkMode webhookUrl : String) : OutboxSink :=
  if sinkMode = "webhook" ∧ webhookUrl ≠ "" then .webhook webhookUrl else .structuredLog

/-- An exception of `httpx` as it leaves the sink. -/
def HttpError.uncaught : HttpError → PyErr
  | .timeout msg => ⟨.other "TimeoutException", msg⟩
  | .transport msg => ⟨.other "TransportError", msg⟩
  | .status msg _ _ => ⟨.other "HTTPStatusError", msg⟩
  | .other e => e

/-- The body that the webhook gets. -/
def webhookBody (eventType : String) (payload : PyVal) : PyVal :=
  .dict [("event_type", .str eventType), ("payload", payload)]

/-- `publish(event_type, payload)`; `post` is what a POST of a body to a
    URL comes to. -/
def OutboxSink.publish (sink : OutboxSink) (post : String → PyVal → Outcome)
    (statusMessage : Response → String) (eventType : String) (payload : PyVal) :
    Except PyErr Unit :=
  match sink with
  -- a log record, and nothing that could fail
  | .structuredLog => .ok ()
  | .webhook url =>
    match post url (webhookBody eventType payload) with
    | .raised e => .error e.uncaught
    | .response r =>
      if r.isSuccess then .ok ()
      else .error (HttpError.status (statusMessage r) r.request r).uncaught

/-! ## `OutboxPublisherWorker` -/

/-- What the environment does during a publish cycle. -/
structure PublishEnv where
  scan : ScanOrder OutboxMessage
  /-- What the POST for a message comes to. -/
  post : OutboxMessage → String → PyVal → Outcome
  statusMessage : Response → String
  /-- The clock when a message is marked as published. -/
  markedAt : String → DateTime
  commitFault : Option PyErr

/-- The call that a cycle of the worker makes. -/
def PublishEnv.call (e : PublishEnv) (sink : OutboxSink) : PublishCall where
  batchSize := 100
  scan := e.scan
  sink m := sink.publish (e.post m) e.statusMessage m.eventType.value m.payloadJson
  markedAt := e.markedAt
  commitFault := e.commitFault

/-- `OutboxPublisherWorker.run_once`, which `publish-outbox` calls too. -/
def OutboxPublisherWorker.runOnce (sink : OutboxSink) (e : PublishEnv) (w : World) :
    Except PyErr Nat × World :=
  publishOutbox (e.call sink) w

/-! ## `run-daemon` -/

/-- What the daemon is put together with. -/
structure Bootstrap where
  facade : EnrichmentFacade
  sink : OutboxSink

/-- What the environment does during a round of the loop. -/
structure Round where
  cycle : Cycle
  publish : PublishEnv

/-- A round: `poll_worker.run_once()`, then `outbox_worker.run_once()`. -/
def Bootstrap.round (b : Bootstrap) (r : Round) (d : Daemon) : Except PyErr Unit × Daemon :=
  match PollingWorker.runOnce b.facade r.cycle d with
  | (.error e, d) => (.error e, d)
  | (.ok _, d) =>
    match OutboxPublisherWorker.runOnce b.sink r.publish d.world with
    | (.error e, w) => (.error e, { d with world := w })
    | (.ok _, w) => (.ok (), { d with world := w })

/-- The daemon process: in its loop, or ended by an exception. -/
inductive DaemonProcess where
  | running (d : Daemon)
  | stopped (e : PyErr) (w : World)

/-- What the process has stored and sent. -/
def DaemonProcess.world : DaemonProcess → World
  | .running d => d.world
  | .stopped _ w => w

/-- A process that starts on what is stored. -/
def DaemonProcess.start (w : World) : DaemonProcess := .running (Daemon.start w)

/-- `while True` of `run_daemon`, once. -/
def DaemonProcess.round (b : Bootstrap) (r : Round) : DaemonProcess → DaemonProcess
  | .stopped e w => .stopped e w
  | .running d =>
    match b.round r d with
    | (.ok (), d) => .running d
    | (.error e, d) => .stopped e d.world

end RulesEnrichment
