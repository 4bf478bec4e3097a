import RulesEnrichment.Model.RuleEngine
import RulesEnrichment.Lib.KeyedTable
import RulesEnrichment.Lib.UnitOfWork

/-! # The database and its repositories

    The tables of `infrastructure/db/models.py` that the code reads or
    writes, the writes a session flushes, and the repositories of
    `infrastructure/repositories/sqlalchemy`.

    `processing_attempts` and `dead_letter_items` have a generated key, so
    they are lists in insertion order; the other tables have the primary
    key of their model. A flush encodes JSON columns, and it is there that
    a value which is not JSON is refused. -/

namespace RulesEnrichment

open Python StableSort KeyedTable UnitOfWork

/-! ## Tables -/

structure Database where
  rules : Table EnrichmentRule EnrichmentRule.ruleId
  attempts : List ProcessingAttempt
  processedOrders : Table ProcessedOrder ProcessedOrder.orderId
  outbox : Table OutboxMessage OutboxMessage.messageId
  deadLetter : List DeadLetterItem

/-- A database with some rules and nothing processed yet. -/
def Database.fresh (rules : Table EnrichmentRule EnrichmentRule.ruleId) : Database where
  rules := rules
  attempts := []
  processedOrders := .empty
  outbox := .empty
  deadLetter := []

/-- The order in which a query meets the rows of a table: the database may
    choose any. -/
structure ScanOrder (α : Type) where
  run : List α → List α
  perm : ∀ l, (run l).Perm l

/-- Rows met in their physical order. -/
def ScanOrder.physical {α : Type} : ScanOrder α := ⟨id, fun l => List.Perm.refl l⟩

/-! ## Encoding of JSON columns -/

mutual

/-- The type of the first object in the value that `json.dumps` refuses. -/
def firstForeign : PyVal → Option String
  | .foreign t _ => some t
  | .list xs => firstForeignList xs
  | .dict es => firstForeignFields es
  | _ => none

def firstForeignList : List PyVal → Option String
  | [] => none
  | x :: xs => (firstForeign x).or (firstForeignList xs)

def firstForeignFields : List (String × PyVal) → Option String
  | [] => none
  | (_, v) :: es => (firstForeign v).or (firstForeignFields es)

end

/-- SQLAlchemy encodes a JSON parameter with `json.dumps` and wraps what
    it raises. Of its message this is the first line; the statement and
    its parameters follow. -/
def encodeJsonColumn (v : PyVal) : Except PyErr Unit :=
  match firstForeign v with
  | none => .ok ()
  | some t => .error ⟨.StatementError,
      "(builtins.TypeError) Object of type " ++ t ++ " is not JSON serializable"⟩

/-! ## Writes -/

/-- What a flush sends: an `INSERT` for an added object, an `UPDATE` by
    primary key for a changed one. -/
inductive Write where
  | insertAttempt (a : ProcessingAttempt)
  | insertProcessed (p : ProcessedOrder)
  | updateProcessed (p : ProcessedOrder)
  | insertOutbox (m : OutboxMessage)
  | setPublished (messageId : String) (publishedAt : DateTime)
  | setFailed (messageId : String)
  | insertDeadLetter (i : DeadLetterItem)
  | insertRule (r : EnrichmentRule)
  | updateRule (r : EnrichmentRule)

/-- An insert under a key that is taken. The message leaves out the name of
    the constraint, the statement and its parameters. -/
def duplicateKey (table : String) : PyErr :=
  ⟨.IntegrityError, "duplicate key value violates unique constraint of " ++ table⟩

def OutboxMessage.published (m : OutboxMessage) (at' : DateTime) : OutboxMessage :=
  { m with status := .PUBLISHED, publishedAt := some at' }

def OutboxMessage.failed (m : OutboxMessage) : OutboxMessage := { m with status := .FAILED }

def Write.apply : Write → Database → Except PyErr Database
  | .insertAttempt a, db => .ok { db with attempts := db.attempts ++ [a] }
  | .insertProcessed p, db =>
    match db.processedOrders.insert? p with
    | none => .error (duplicateKey "processed_orders")
    | some t => .ok { db with processedOrders := t }
  | .updateProcessed p, db =>
    .ok { db with
      processedOrders := db.processedOrders.modify p.orderId (fun _ => p) (fun _ _ => rfl) }
  | .insertOutbox m, db =>
    -- the parameters are encoded before the statement is sent
    match encodeJsonColumn m.payloadJson with
    | .error e => .error e
    | .ok () =>
      match db.outbox.insert? m with
      | none => .error (duplicateKey "outbox_messages")
      | some t => .ok { db with outbox := t }
  | .setPublished messageId at', db =>
    .ok { db with outbox := db.outbox.modify messageId (·.published at') (fun _ h => h) }
  | .setFailed messageId, db =>
    .ok { db with outbox := db.outbox.modify messageId (·.failed) (fun _ h => h) }
  | .insertDeadLetter i, db =>
    match encodeJsonColumn i.payloadJson with
    | .error e => .error e
    | .ok () => .ok { db with deadLetter := db.deadLetter ++ [i] }
  | .insertRule r, db =>
    match db.rules.insert? r with
    | none => .error (duplicateKey "enrichment_rules")
    | some t => .ok { db with rules := t }
  | .updateRule r, db =>
    .ok { db with rules := db.rules.modify r.ruleId (fun _ => r) (fun _ _ => rfl) }

abbrev DbSession := Session Database Write

/-- `uow.commit()` at the end of a `with uow` block, against the committed
    data. `fault` is an error of the database at commit, if there is one.
    A block that raises rolls back, so a failed commit changes nothing. -/
def DbSession.commit (s : DbSession) (fault : Option PyErr) (db : Database) :
    Except PyErr Unit × Database :=
  UnitOfWork.commit Write.apply fault s.writes db

/-! ## Repositories -/

namespace ProcessingAttemptRepository

/-- `int(current) + 1 if current else 1`, where `current` is the greatest
    attempt number of the order. -/
def getNextAttemptNumber (s : DbSession) (orderId : String) : Nat :=
  match ((s.snapshot.attempts.filter (·.orderId = orderId)).map (·.attemptNumber)).max? with
  | none => 1
  -- `if current` takes 0 for absent
  | some current => if current = 0 then 1 else current + 1

def save (s : DbSession) (a : ProcessingAttempt) : DbSession := s.add (.insertAttempt a)

end ProcessingAttemptRepository

namespace ProcessedOrderRepository

def getByOrderId (s : DbSession) (orderId : String) : Option ProcessedOrder :=
  s.snapshot.processedOrders.find? orderId

def save (s : DbSession) (p : ProcessedOrder) : DbSession :=
  match getByOrderId s p.orderId with
  | none => s.add (.insertProcessed p)
  | some _ => s.add (.updateProcessed p)

end ProcessedOrderRepository

namespace OutboxRepository

def enqueue (s : DbSession) (m : OutboxMessage) : DbSession := s.add (.insertOutbox m)

/-- Pending messages, oldest first, at most `limit`. -/
def listPending (s : DbSession) (scan : ScanOrder OutboxMessage) (limit : Nat) :
    List OutboxMessage :=
  (sortBy (·.createdAt.instant)
    ((scan.run s.snapshot.outbox.rows).filter (·.status = .PENDING))).take limit

def markPublished (s : DbSession) (messageId : String) (now : DateTime) : DbSession :=
  match s.snapshot.outbox.find? messageId with
  | some _ => s.add (.setPublished messageId now)
  | none => s

def markFailed (s : DbSession) (messageId : String) : DbSession :=
  match s.snapshot.outbox.find? messageId with
  | some _ => s.add (.setFailed messageId)
  | none => s

end OutboxRepository

namespace DeadLetterRepository

def save (s : DbSession) (i : DeadLetterItem) : DbSession := s.add (.insertDeadLetter i)

end DeadLetterRepository

namespace EnrichmentRuleRepository

/-- The condition on one of the three codes: none where the argument is
    `None` or empty, else the rule's code is the argument or `NULL`. -/
def codeFilter (argument column : Option String) : Bool :=
  match argument with
  | none => true
  | some c => c = "" ∨ column = some c ∨ column = none

/-- The `WHERE` clause on the validity window, on instants. -/
def windowFilter (now : DateTime) (r : EnrichmentRule) : Bool :=
  (match r.validFrom with
    | none => true
    | some f => f ≤ now) &&
  (match r.validTo with
    | none => true
    | some t => now ≤ t)

/-- The three conditions on the codes. -/
def scopeFilter (clientCode facilityCode zoneCode : Option String) (r : EnrichmentRule) : Bool :=
  codeFilter clientCode r.clientCode && codeFilter facilityCode r.facilityCode &&
    codeFilter zoneCode r.zoneCode

/-- `list_active_rules` -/
def listActiveRules (s : DbSession) (scan : ScanOrder EnrichmentRule) (now : DateTime)
    (clientCode facilityCode zoneCode : Option String) : List EnrichmentRule :=
  sortBy EnrichmentRule.priority ((scan.run s.snapshot.rules.rows).filter fun r =>
    r.isActive && windowFilter now r && scopeFilter clientCode facilityCode zoneCode r)

/-- `upsert_many`: looks each rule up in the session, which does not see
    the rules it has only added. -/
def upsertMany (s : DbSession) : List EnrichmentRule → DbSession
  | [] => s
  | r :: rs =>
    match s.snapshot.rules.find? r.ruleId with
    | none => upsertMany (s.add (.insertRule r)) rs
    | some _ => upsertMany (s.add (.updateRule r)) rs

theorem mem_listActiveRules {s : DbSession} {scan : ScanOrder EnrichmentRule} {now : DateTime}
    {c f z : Option String} {r : EnrichmentRule} :
    r ∈ listActiveRules s scan now c f z ↔ r ∈ s.snapshot.rules.rows ∧ r.isActive = true ∧
      windowFilter now r = true ∧ scopeFilter c f z r = true := by
  simp only [listActiveRules, mem_sortBy, List.mem_filter, (scan.perm _).mem_iff,
    Bool.and_eq_true, and_assoc]

end EnrichmentRuleRepository

/-! ## What the reads and writes do -/

/-- The next attempt number exceeds every number the order has. -/
theorem lt_getNextAttemptNumber {s : DbSession} {a : ProcessingAttempt}
    (ha : a ∈ s.snapshot.attempts) :
    a.attemptNumber < ProcessingAttemptRepository.getNextAttemptNumber s a.orderId := by
  unfold ProcessingAttemptRepository.getNextAttemptNumber
  have hmem : a.attemptNumber ∈
      (s.snapshot.attempts.filter (·.orderId = a.orderId)).map (·.attemptNumber) := by
    apply List.mem_map_of_mem
    exact List.mem_filter.mpr ⟨ha, by simp⟩
  split
  · next h =>
    rw [List.max?_eq_none_iff] at h
    rw [h] at hmem
    cases hmem
  · next current h =>
    have hle : a.attemptNumber ≤ current := (List.max?_eq_some_iff.mp h).2 _ hmem
    split <;> omega

@[simp] theorem applyWrite_insertAttempt (a : ProcessingAttempt) (db : Database) :
    (Write.insertAttempt a).apply db = .ok { db with attempts := db.attempts ++ [a] } := rfl

/-- Saving a processed order is an upsert, whichever statement it takes. -/
theorem apply_save_processed (db : Database) (p : ProcessedOrder) (ws : List Write)
    (db₁ : Database) (h₁ : db₁.processedOrders = db.processedOrders) :
    ∃ w, (ProcessedOrderRepository.save ⟨db, ws⟩ p) = ⟨db, ws ++ [w]⟩ ∧
      w.apply db₁ = .ok { db₁ with processedOrders := db₁.processedOrders.upsert p } := by
  unfold ProcessedOrderRepository.save ProcessedOrderRepository.getByOrderId
  -- an insert or an update, depending on what the session reads
  cases hf : db.processedOrders.find? p.orderId with
  | none =>
    refine ⟨.insertProcessed p, by simp [Session.add], ?_⟩
    cases hi : db.processedOrders.insert? p with
    | none => exact absurd hf ((Table.insert?_eq_none_iff _ _).mp hi)
    | some t => simp [Write.apply, h₁, hi, Table.upsert_of_insert? hi]
  | some p' =>
    refine ⟨.updateProcessed p, by simp [Session.add], ?_⟩
    -- the row was read from the snapshot and is still there at the flush
    have hne : db₁.processedOrders.find? p.orderId ≠ none := by simp [h₁, hf]
    simp [Write.apply, Table.upsert_of_find? hne]

/-- Enqueuing succeeds exactly when the payload is JSON and the id is free. -/
theorem apply_insertOutbox_ok_iff {m : OutboxMessage} {db db' : Database} :
    (Write.insertOutbox m).apply db = .ok db' ↔
      firstForeign m.payloadJson = none ∧
        ∃ t, db.outbox.insert? m = some t ∧ db' = { db with outbox := t } := by
  unfold Write.apply encodeJsonColumn
  cases hf : firstForeign m.payloadJson with
  | some t => simp [hf]
  | none =>
    cases hi : db.outbox.insert? m with
    | none => simp [hf, hi]
    | some t => simp [hf, hi, eq_comm]

end RulesEnrichment
