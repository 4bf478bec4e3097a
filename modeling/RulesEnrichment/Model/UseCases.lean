import RulesEnrichment.Model.Store

/-! # The use cases

    `application/use_cases`: recording a result, moving an order to the
    dead letter, publishing the outbox and processing one order.

    A `World` is the committed database together with what has happened
    outside it: the ids handed out, the submissions made to the external
    system and the messages given to the outbox sink, each with its
    outcome. What the environment decides (the answer to a submission, an
    error of a commit, the row order of a query) is an argument, so every
    use case is a function. -/

namespace RulesEnrichment

open Python StableSort KeyedTable UnitOfWork

/-! ## The world -/

/-- A call of `SubmitEnrichmentUseCase.execute`; `accepted` if it returned
    normally. -/
structure Submission where
  orderId : String
  payload : PyVal
  correlationId : String
  accepted : Bool

/-- A call of the outbox sink; `accepted` if it returned normally. -/
structure Delivery where
  messageId : String
  accepted : Bool
  deriving DecidableEq

structure World where
  db : Database
  /-- The ids `IdGenerator` has handed out. -/
  issued : List String
  submissions : List Submission
  deliveries : List Delivery

/-- A world in which nothing has been processed yet. -/
def World.fresh (rules : Table EnrichmentRule EnrichmentRule.ruleId) : World :=
  ⟨Database.fresh rules, [], [], []⟩

def World.issue (w : World) (id : String) : World := { w with issued := w.issued ++ [id] }

/-- Run a unit of work on the committed database. -/
def World.transact (w : World) (r : Except PyErr Unit × Database) : Except PyErr Unit × World :=
  (r.1, { w with db := r.2 })

/-! ## `PersistProcessingResultUseCase` -/

/-- The arguments of `PersistProcessingResultUseCase.execute`. -/
structure ResultRecord where
  orderId : String
  correlationId : String
  attemptNumber : Nat
  enrichmentHash : String
  success : Bool
  now : DateTime
  eventPayload : PyVal

/-- `f"outbox-{correlation_id}-{order_id}"` -/
def messageIdOf (correlationId orderId : String) : String :=
  "outbox-" ++ correlationId ++ "-" ++ orderId

namespace ResultRecord

variable (r : ResultRecord)

/-- `_build_attempt` -/
def attempt : ProcessingAttempt where
  orderId := r.orderId
  correlationId := r.correlationId
  attemptNumber := r.attemptNumber
  status := if r.success then .SUCCESS else .FAILED
  startedAt := r.now
  finishedAt := some r.now
  errorMessage := if r.success then none else some "processing failed"

def processed : ProcessedOrder where
  orderId := r.orderId
  enrichmentHash := r.enrichmentHash
  processedAt := r.now
  correlationId := r.correlationId

def message : OutboxMessage where
  messageId := messageIdOf r.correlationId r.orderId
  aggregateType := "Order"
  aggregateId := r.orderId
  eventType := if r.success then .OrderEnrichmentSucceeded else .OrderEnrichmentFailed
  payloadJson := r.eventPayload
  status := .PENDING
  createdAt := r.now
  publishedAt := none

end ResultRecord

/-- `PersistProcessingResultUseCase.execute` -/
def persistResult (fault : Option PyErr) (r : ResultRecord) (db : Database) :
    Except PyErr Unit × Database :=
  let s : DbSession := Session.enter db
  let s := ProcessingAttemptRepository.save s r.attempt
  let s := if r.success then ProcessedOrderRepository.save s r.processed else s
  let s := OutboxRepository.enqueue s r.message
  DbSession.commit s fault db

/-! ## `MoveOrderToDeadLetterUseCase` -/

/-- The arguments of `MoveOrderToDeadLetterUseCase.execute`. -/
structure DeadLetterRecord where
  orderId : String
  correlationId : String
  reason : String
  payload : List (String × PyVal)
  now : DateTime

/-- `f"outbox-dead-letter-{correlation_id}"` -/
def deadLetterMessageIdOf (correlationId : String) : String :=
  "outbox-dead-letter-" ++ correlationId

namespace DeadLetterRecord

variable (r : DeadLetterRecord)

def item : DeadLetterItem where
  orderId := r.orderId
  correlationId := r.correlationId
  reason := r.reason
  payloadJson := .dict r.payload
  createdAt := r.now

/-- The event carries the reason and the payload's members. -/
def message : OutboxMessage where
  messageId := deadLetterMessageIdOf r.correlationId
  aggregateType := "Order"
  aggregateId := r.orderId
  eventType := .OrderMovedToDeadLetter
  payloadJson := .dict (PyVal.updateFields [("reason", .str r.reason)] r.payload)
  status := .PENDING
  createdAt := r.now
  publishedAt := none

end DeadLetterRecord

/-- `MoveOrderToDeadLetterUseCase.execute` -/
def moveToDeadLetter (fault : Option PyErr) (r : DeadLetterRecord) (db : Database) :
    Except PyErr Unit × Database :=
  let s : DbSession := Session.enter db
  let s := DeadLetterRepository.save s r.item
  let s := OutboxRepository.enqueue s r.message
  DbSession.commit s fault db

/-! ## `PublishOutboxMessagesUseCase` -/

/-- A call of `PublishOutboxMessagesUseCase.execute` and what the
    environment does during it. -/
structure PublishCall where
  batchSize : Nat
  scan : ScanOrder OutboxMessage
  /-- What the sink does with a message. -/
  sink : OutboxMessage → Except PyErr Unit
  /-- The clock when a message is marked as published. -/
  markedAt : String → DateTime
  commitFault : Option PyErr

/-- `for msg in messages`: publish and mark; a message the sink refuses is
    marked as failed. -/
def publishLoop (c : PublishCall) :
    List OutboxMessage → DbSession → Nat → List Delivery → DbSession × Nat × List Delivery
  | [], s, published, log => (s, published, log)
  | msg :: msgs, s, published, log =>
    -- the marks are only queued here; the sink has the message whatever the commit does
    match c.sink msg with
    | .ok () =>
      publishLoop c msgs
        (OutboxRepository.markPublished s msg.messageId (c.markedAt msg.messageId))
        (published + 1) (log ++ [⟨msg.messageId, true⟩])
    | .error _ =>
      publishLoop c msgs (OutboxRepository.markFailed s msg.messageId) published
        (log ++ [⟨msg.messageId, false⟩])

/-- The messages the call takes up. -/
def PublishCall.batch (c : PublishCall) (db : Database) : List OutboxMessage :=
  OutboxRepository.listPending (Session.enter db) c.scan c.batchSize

/-- `PublishOutboxMessagesUseCase.execute` -/
def publishOutbox (c : PublishCall) (w : World) : Except PyErr Nat × World :=
  match publishLoop c (c.batch w.db) (Session.enter w.db) 0 [] with
  | (s, published, log) =>
    match DbSession.commit s c.commitFault w.db with
    | (.error e, db) => (.error e, { w with db := db, deliveries := w.deliveries ++ log })
    | (.ok (), db) => (.ok published, { w with db := db, deliveries := w.deliveries ++ log })

/-! ## `ProcessOrderForEnrichmentUseCase` -/

/-- What the use case is configured with. -/
structure ProcessOrderUseCase where
  runtime : Runtime
  sourceSystem : String
  enrichmentVersion : Nat
  maxProcessingAttempts : Nat

/-- Errors of the database at the three commits a call may make. -/
structure CommitFaults where
  success : Option PyErr := none
  failure : Option PyErr := none
  deadLetter : Option PyErr := none

/-- A call of `execute` and what the environment does during it. -/
structure ProcessCall where
  order : ExternalOrder
  rules : List EnrichmentRule
  now : DateTime
  /-- What `IdGenerator.new_id` returns. -/
  correlationId : String
  /-- What the external system does with `(order_id, payload,
      correlation_id)`. -/
  submit : String → PyVal → String → Except PyErr Unit
  faults : CommitFaults := {}

namespace ProcessCall

variable (uc : ProcessOrderUseCase) (c : ProcessCall)

/-- The payload of the submission, as it is sent. -/
def payload (d : EnrichmentDecision) : PyVal :=
  payloadToDict (buildPayload c.correlationId uc.sourceSystem uc.enrichmentVersion d)

/-- The external system's answer to the submission. -/
def answer (d : EnrichmentDecision) : Except PyErr Unit :=
  c.submit c.order.orderId (c.payload uc d) c.correlationId

/-- The record of a result of this call. -/
def record (attemptNumber : Nat) (hash : String) (success : Bool) (eventPayload : PyVal) :
    ResultRecord where
  orderId := c.order.orderId
  correlationId := c.correlationId
  attemptNumber := attemptNumber
  enrichmentHash := hash
  success := success
  now := c.now
  eventPayload := eventPayload

def noMatchRecord (n : Nat) (hash : String) : ResultRecord :=
  c.record n hash true
    (.dict [("event", .str "NoRulesMatched"), ("order_id", .str c.order.orderId)])

def successRecord (n : Nat) (hash : String) (d : EnrichmentDecision) : ResultRecord :=
  c.record n hash true
    (.dict [("event", .str "OrderEnrichmentSucceeded"), ("order_id", .str c.order.orderId),
      ("rules", .list (d.matchedRules.map .str))])

def failureRecord (n : Nat) (hash : String) (exc : PyErr) : ResultRecord :=
  c.record n hash false
    (.dict [("event", .str "OrderEnrichmentFailed"), ("order_id", .str c.order.orderId),
      ("error", .str exc.msg)])

def deadLetterRecord : DeadLetterRecord where
  orderId := c.order.orderId
  correlationId := c.correlationId
  reason := "max attempts exceeded"
  payload := [("order", c.order.asdict)]
  now := c.now

/-- `SubmitEnrichmentUseCase.execute` -/
def submitEnrichment (d : EnrichmentDecision) (w : World) : Except PyErr Unit × World :=
  match c.answer uc d with
  | .ok () => (.ok (), { w with submissions := w.submissions ++
      [⟨c.order.orderId, c.payload uc d, c.correlationId, true⟩] })
  | .error e => (.error e, { w with submissions := w.submissions ++
      [⟨c.order.orderId, c.payload uc d, c.correlationId, false⟩] })

/-- The body of the `try`: submit, then record the success. -/
def tryBlock (n : Nat) (hash : String) (d : EnrichmentDecision) (w : World) :
    Except PyErr Unit × World :=
  match c.submitEnrichment uc d w with
  | (.error e, w) => (.error e, w)
  | (.ok (), w) =>
    -- still inside the `try`: an error of this commit reaches the handler as well
    w.transact (persistResult c.faults.success (c.successRecord n hash d) w.db)

/-- The handler: record the failure, move an exhausted order to the dead
    letter, raise. -/
def exceptBlock (n : Nat) (hash : String) (exc : PyErr) (w : World) : PyErr × World :=
  match w.transact (persistResult c.faults.failure (c.failureRecord n hash exc) w.db) with
  -- the handler's own error leaves `execute` in place of the submission's
  | (.error e, w) => (e, w)
  | (.ok (), w) =>
    if uc.maxProcessingAttempts ≤ n then
      -- a second unit of work, after the failure is committed
      match w.transact (moveToDeadLetter c.faults.deadLetter c.deadLetterRecord w.db) with
      | (.error e, w) => (e, w)
      | (.ok (), w) => (⟨.EnrichmentSubmissionError, exc.msg⟩, w)
    else (⟨.EnrichmentSubmissionError, exc.msg⟩, w)

/-- What `execute` returns: processed, correlation id, duplicate skip. -/
abbrev Result := Bool × String × Bool

/-- `ProcessOrderForEnrichmentUseCase.execute` -/
def execute (w : World) : Except PyErr Result × World :=
  let w := w.issue c.correlationId
  let n := ProcessingAttemptRepository.getNextAttemptNumber (Session.enter w.db) c.order.orderId
  -- evaluation and hash come before the `try` block: what they raise is not recorded
  match evaluate uc.runtime c.order c.rules c.now with
  | .error e => (.error e, w)
  | .ok d =>
    match computeHash uc.runtime c.order d.enrichedFields with
    | .error e => (.error e, w)
    | .ok hash =>
      let processed := ProcessedOrderRepository.getByOrderId (Session.enter w.db) c.order.orderId
      if processed.any (·.enrichmentHash = hash) then (.ok (true, c.correlationId, true), w)
      else if !d.hasMatches then
        -- no rule matched: a success without a submission, and outside the `try` block
        match w.transact (persistResult c.faults.success (c.noMatchRecord n hash) w.db) with
        | (.error e, w) => (.error e, w)
        | (.ok (), w) => (.ok (true, c.correlationId, false), w)
      else
        match c.tryBlock uc n hash d w with
        | (.ok (), w) => (.ok (true, c.correlationId, false), w)
        | (.error exc, w) =>
          match c.exceptBlock uc n hash exc w with
          | (e, w) => (.error e, w)

end ProcessCall

end RulesEnrichment
