import RulesEnrichment.Records

/-! # The lengths of the columns

    `models.py` declares a length for every string column, and PostgreSQL
    refuses a longer string. The message id is the one string that the code
    builds by concatenation: around the order id it holds a UUID and eight
    more characters, which is 44 of the 120 the column admits
    (`writesFit_iff`). -/

namespace RulesEnrichment

open UnitOfWork Python

/-! ## Declared lengths -/

/-- `ProcessingStatus.value` -/
def ProcessingStatus.value : ProcessingStatus → String
  | .PENDING => "PENDING"
  | .SUCCESS => "SUCCESS"
  | .FAILED => "FAILED"
  | .DEAD_LETTER => "DEAD_LETTER"

/-- `OutboxStatus.value` -/
def OutboxStatus.value : OutboxStatus → String
  | .PENDING => "PENDING"
  | .PUBLISHED => "PUBLISHED"
  | .FAILED => "FAILED"

def EventType.value : EventType → String
  | .OrderEnrichmentSucceeded => "OrderEnrichmentSucceeded"
  | .OrderEnrichmentFailed => "OrderEnrichmentFailed"
  | .OrderMovedToDeadLetter => "OrderMovedToDeadLetter"

theorem ProcessingStatus.length_value (s : ProcessingStatus) : s.value.length ≤ 20 := by
  cases s <;> decide

theorem OutboxStatus.length_value (s : OutboxStatus) : s.value.length ≤ 20 := by
  cases s <;> decide

theorem EventType.length_value (t : EventType) : t.value.length ≤ 80 := by
  cases t <;> decide

/-- A string that is written into a `String(limit)` column. -/
structure ColumnText where
  column : String
  text : String
  limit : Nat

/-- The strings a statement writes into columns with a declared length
    (`Text` and `JSON` columns have none). -/
def Write.columnTexts : Write → List ColumnText
  | .insertAttempt a =>
    [⟨"processing_attempts.order_id", a.orderId, 80⟩,
      ⟨"processing_attempts.correlation_id", a.correlationId, 80⟩,
      ⟨"processing_attempts.status", a.status.value, 20⟩]
  | .insertProcessed p =>
    [⟨"processed_orders.order_id", p.orderId, 80⟩,
      ⟨"processed_orders.enrichment_hash", p.enrichmentHash, 128⟩,
      ⟨"processed_orders.correlation_id", p.correlationId, 80⟩]
  | .updateProcessed p =>
    [⟨"processed_orders.enrichment_hash", p.enrichmentHash, 128⟩,
      ⟨"processed_orders.correlation_id", p.correlationId, 80⟩]
  | .insertOutbox m =>
    [⟨"outbox_messages.message_id", m.messageId, 120⟩,
      ⟨"outbox_messages.aggregate_type", m.aggregateType, 60⟩,
      ⟨"outbox_messages.aggregate_id", m.aggregateId, 80⟩,
      ⟨"outbox_messages.event_type", m.eventType.value, 80⟩,
      ⟨"outbox_messages.status", m.status.value, 20⟩]
  | .setPublished _ _ => [⟨"outbox_messages.status", OutboxStatus.PUBLISHED.value, 20⟩]
  | .setFailed _ => [⟨"outbox_messages.status", OutboxStatus.FAILED.value, 20⟩]
  | .insertDeadLetter i =>
    [⟨"dead_letter_items.order_id", i.orderId, 80⟩,
      ⟨"dead_letter_items.correlation_id", i.correlationId, 80⟩]
  | .insertRule r | .updateRule r =>
    [⟨"enrichment_rules.rule_id", r.ruleId, 80⟩,
      ⟨"enrichment_rules.facility_code", r.facilityCode.getD "", 40⟩,
      ⟨"enrichment_rules.client_code", r.clientCode.getD "", 40⟩,
      ⟨"enrichment_rules.zone_code", r.zoneCode.getD "", 40⟩,
      ⟨"enrichment_rules.rule_type", r.ruleType, 40⟩]

/-- Every string of the statement fits its column. -/
def Write.fits (x : Write) : Bool := x.columnTexts.all fun t => t.text.length ≤ t.limit

theorem Write.fits_iff {x : Write} :
    x.fits = true ↔ ∀ t ∈ x.columnTexts, t.text.length ≤ t.limit := by
  simp [Write.fits]

/-! ## A database that rejects over-long strings -/

def stringDataRightTruncation : PyErr :=
  ⟨.other "DataError", "value too long for type character varying"⟩

/-- The encoding of the statement's parameters. -/
def Write.encode : Write → Except PyErr Unit
  | .insertOutbox m => encodeJsonColumn m.payloadJson
  | .insertDeadLetter i => encodeJsonColumn i.payloadJson
  | _ => .ok ()

/-- The server checks the strings of a statement when it receives it,
    which is after its parameters were encoded. -/
def Write.applyStrict (x : Write) (db : Database) : Except PyErr Database :=
  match x.encode with
  | .error e => .error e
  | .ok () => if x.fits then x.apply db else .error stringDataRightTruncation

/-- A statement whose parameters cannot be encoded is never sent. -/
theorem Write.apply_of_encode_error {x : Write} {e : PyErr} (h : x.encode = .error e)
    (db : Database) : x.apply db = .error e := by
  cases x with
  | insertOutbox m =>
    have hm : encodeJsonColumn m.payloadJson = .error e := h
    simp [Write.apply, hm]
  | insertDeadLetter i =>
    have hi : encodeJsonColumn i.payloadJson = .error e := h
    simp [Write.apply, hi]
  | _ => cases h

theorem Write.applyStrict_of_fits {x : Write} (h : x.fits = true) (db : Database) :
    x.applyStrict db = x.apply db := by
  unfold Write.applyStrict
  cases he : x.encode with
  | error e => exact (Write.apply_of_encode_error he db).symm
  | ok u => exact if_pos h

/-- `uow.commit()` on such a database. -/
def DbSession.commitStrict (s : DbSession) (db : Database) : Except PyErr Unit × Database :=
  UnitOfWork.commit Write.applyStrict none s.writes db

/-- The session of `MoveOrderToDeadLetterUseCase.execute`. -/
def deadLetterSession (r : DeadLetterRecord) (db : Database) : DbSession :=
  OutboxRepository.enqueue (DeadLetterRepository.save (Session.enter db) r.item) r.message

theorem moveToDeadLetter_session (fault : Option PyErr) (r : DeadLetterRecord) (db : Database) :
    moveToDeadLetter fault r db = (deadLetterSession r db).commit fault db := rfl

/-- Every statement of the session fits. -/
def DbSession.fits (s : DbSession) : Bool := s.writes.all Write.fits

/-- A flush that any database takes ends, on such a one, at the first
    statement that does not fit. -/
theorem applyAll_strict {ws : List Write} {db db' : Database}
    (h : applyAll Write.apply ws db = .ok db') :
    applyAll Write.applyStrict ws db =
      if ws.all Write.fits then .ok db' else .error stringDataRightTruncation := by
  induction ws generalizing db with
  | nil => exact h
  | cons x ws ih =>
    unfold applyAll at h ⊢
    cases hx : x.apply db with
    | error e => simp [hx] at h
    | ok db₁ =>
      simp only [hx] at h
      by_cases hfits : x.fits = true
      · rw [Write.applyStrict_of_fits hfits, hx]
        simp only [ih h, List.all_cons, hfits, Bool.true_and]
      · -- its parameters were encoded, so the server gets to see it
        have hencode : x.encode = .ok () := by
          cases he : x.encode with
          | error e =>
            rw [Write.apply_of_encode_error he] at hx
            cases hx
          | ok u => rfl
        simp [Write.applyStrict, hencode, hfits]

/-- **Length**: a session that any database commits is committed by such a
    one exactly if every string fits, and is rejected for length else. -/
theorem commitStrict_eq {s : DbSession} {db : Database} (h : (s.commit none db).1 = .ok ()) :
    (s.commitStrict db).1 = if s.fits then .ok () else .error stringDataRightTruncation := by
  have hok : DbSession.commit s none db = (.ok (), (s.commit none db).2) := Prod.ext h rfl
  obtain ⟨happly, _⟩ := (UnitOfWork.commit_ok_iff Write.apply).mp hok
  unfold DbSession.commitStrict UnitOfWork.commit DbSession.fits
  rw [applyAll_strict happly]
  by_cases hfits : s.writes.all Write.fits = true
  · rw [if_pos hfits, if_pos hfits]
  · rw [if_neg hfits, if_neg hfits]

/-! ## What the two use cases write -/

theorem length_messageIdOf {id : String} (h : isUuid id = true) (orderId : String) :
    (messageIdOf id orderId).length = orderId.length + 44 := by
  have hlen : id.length = 36 := by
    rw [← String.length_toList]
    exact length_of_isUuid h
  have hhead : ("outbox-" : String).length = 7 := rfl
  have hdash : ("-" : String).length = 1 := rfl
  unfold messageIdOf
  rw [String.length_append, String.length_append, String.length_append]
  omega

theorem length_deadLetterMessageIdOf {id : String} (h : isUuid id = true) :
    (deadLetterMessageIdOf id).length = 55 := by
  have hlen : id.length = 36 := by
    rw [← String.length_toList]
    exact length_of_isUuid h
  have hhead : ("outbox-dead-letter-" : String).length = 19 := rfl
  unfold deadLetterMessageIdOf
  rw [String.length_append]
  omega

section

variable {r : ResultRecord}

theorem fits_insertAttempt (huuid : isUuid r.correlationId = true) (h : r.orderId.length ≤ 80) :
    (Write.insertAttempt r.attempt).fits = true := by
  have hid : r.correlationId.length = 36 := by
    rw [← String.length_toList]
    exact length_of_isUuid huuid
  rw [Write.fits_iff]
  simp only [Write.columnTexts, List.forall_mem_cons]
  have horder : r.attempt.orderId.length ≤ 80 := h
  have hcorrelation : r.attempt.correlationId.length ≤ 80 := by
    show r.correlationId.length ≤ 80
    omega
  exact ⟨horder, hcorrelation, ProcessingStatus.length_value _, List.forall_mem_nil _⟩

/-- The row of the processed order, inserted or updated. -/
theorem fits_processed (huuid : isUuid r.correlationId = true) (hhash : r.enrichmentHash.length = 64)
    (h : r.orderId.length ≤ 80) :
    (Write.insertProcessed r.processed).fits = true ∧
      (Write.updateProcessed r.processed).fits = true := by
  have hid : r.correlationId.length = 36 := by
    rw [← String.length_toList]
    exact length_of_isUuid huuid
  have horder : r.processed.orderId.length ≤ 80 := h
  have hhash' : r.processed.enrichmentHash.length ≤ 128 := by
    show r.enrichmentHash.length ≤ 128
    omega
  have hcorrelation : r.processed.correlationId.length ≤ 80 := by
    show r.correlationId.length ≤ 80
    omega
  constructor
  · rw [Write.fits_iff]
    simp only [Write.columnTexts, List.forall_mem_cons]
    exact ⟨horder, hhash', hcorrelation, List.forall_mem_nil _⟩
  · rw [Write.fits_iff]
    simp only [Write.columnTexts, List.forall_mem_cons]
    exact ⟨hhash', hcorrelation, List.forall_mem_nil _⟩

/-- The message id is the narrowest place for an order id. -/
theorem fits_insertOutbox_iff (huuid : isUuid r.correlationId = true) :
    (Write.insertOutbox r.message).fits = true ↔ r.orderId.length ≤ 76 := by
  have hmessageId : r.message.messageId.length = r.orderId.length + 44 :=
    length_messageIdOf huuid r.orderId
  have htype : r.message.aggregateType.length ≤ 60 := by
    show ("Order" : String).length ≤ 60
    decide
  rw [Write.fits_iff]
  simp only [Write.columnTexts, List.forall_mem_cons]
  constructor
  · intro h
    have hfit : r.message.messageId.length ≤ 120 := h.1
    omega
  · intro h
    have hfit : r.message.messageId.length ≤ 120 := by omega
    have haggregate : r.message.aggregateId.length ≤ 80 := by
      show r.orderId.length ≤ 80
      omega
    exact ⟨hfit, htype, haggregate, EventType.length_value _, OutboxStatus.length_value _,
      List.forall_mem_nil _⟩

/-- The record of a result fits exactly if its message does: every other
    column that takes the order id is wider than what the message id
    leaves for it. -/
theorem persistSession_fits_iff (huuid : isUuid r.correlationId = true)
    (hhash : r.enrichmentHash.length = 64) (db : Database) :
    (persistSession r db).fits = true ↔ r.orderId.length ≤ 76 := by
  have hmessage := fits_insertOutbox_iff (r := r) huuid
  -- what stands before the message in the flush
  have hbefore : r.orderId.length ≤ 80 →
      ((if r.success then ProcessedOrderRepository.save
        (ProcessingAttemptRepository.save (Session.enter db) r.attempt) r.processed
        else ProcessingAttemptRepository.save (Session.enter db) r.attempt).writes.all
          Write.fits) = true := by
    intro hlen
    have hattempt := fits_insertAttempt (r := r) huuid hlen
    obtain ⟨hinsert, hupdate⟩ := fits_processed (r := r) huuid hhash hlen
    by_cases hs : r.success = true
    · rw [if_pos hs]
      unfold ProcessedOrderRepository.save
      split
      · simp [ProcessingAttemptRepository.save, hattempt, hinsert]
      · simp [ProcessingAttemptRepository.save, hattempt, hupdate]
    · rw [if_neg hs]
      simp [ProcessingAttemptRepository.save, hattempt]
  unfold DbSession.fits persistSession OutboxRepository.enqueue
  rw [Session.writes_add, List.all_append, Bool.and_eq_true]
  simp only [List.all_cons, List.all_nil, Bool.and_true, hmessage]
  constructor
  · exact fun h => h.2
  · intro h
    exact ⟨hbefore (by omega), h⟩

end

theorem deadLetterSession_fits {r : DeadLetterRecord} (huuid : isUuid r.correlationId = true)
    (h : r.orderId.length ≤ 80) (db : Database) : (deadLetterSession r db).fits = true := by
  have hid : r.correlationId.length = 36 := by
    rw [← String.length_toList]
    exact length_of_isUuid huuid
  have hmessageId : r.message.messageId.length = 55 := length_deadLetterMessageIdOf huuid
  have hitem : (Write.insertDeadLetter r.item).fits = true := by
    rw [Write.fits_iff]
    simp only [Write.columnTexts, List.forall_mem_cons]
    have hcorrelation : r.item.correlationId.length ≤ 80 := by
      show r.correlationId.length ≤ 80
      omega
    exact ⟨h, hcorrelation, List.forall_mem_nil _⟩
  have hmessage : (Write.insertOutbox r.message).fits = true := by
    rw [Write.fits_iff]
    simp only [Write.columnTexts, List.forall_mem_cons]
    have hfit : r.message.messageId.length ≤ 120 := by omega
    have htype : r.message.aggregateType.length ≤ 60 := by
      show ("Order" : String).length ≤ 60
      decide
    exact ⟨hfit, htype, h, EventType.length_value _, OutboxStatus.length_value _,
      List.forall_mem_nil _⟩
  unfold DbSession.fits deadLetterSession OutboxRepository.enqueue DeadLetterRepository.save
  simp [hitem, hmessage]

/-! ## Which orders can be recorded -/

namespace ProcessCall

variable {uc : ProcessOrderUseCase} {c : ProcessCall} {d : EnrichmentDecision} {hash : String}

/-- **Columns.** Let SHA-256 digests have 64 characters. Whatever a call
    records of an order, and its move to the dead letter, fits the columns,
    and no commit is rejected for length, exactly if the order id has at
    most 76 characters. -/
theorem writesFit_iff (hsha : ∀ t, (uc.runtime.sha256 t).length = 64) (hdec : c.Decides uc d hash)
    (huuid : isUuid c.correlationId = true) (n : Nat) (success : Bool) (eventPayload : PyVal)
    (db : Database) :
    ((persistSession (c.record n hash success eventPayload) db).fits = true ∧
      (deadLetterSession c.deadLetterRecord db).fits = true ∧
      ((persistResult none (c.record n hash success eventPayload) db).1 = .ok () →
        ((persistSession (c.record n hash success eventPayload) db).commitStrict db).1 = .ok ())) ↔
    c.order.orderId.length ≤ 76 := by
  have hlen : hash.length = 64 := by
    have hhash := hdec.hashed
    unfold computeHash at hhash
    split at hhash
    · cases hhash
    · cases hhash
      exact hsha _
  have hfits := persistSession_fits_iff (r := c.record n hash success eventPayload) huuid hlen db
  constructor
  · exact fun h => hfits.mp h.1
  · intro h
    have hpersist := hfits.mpr h
    have hbound : c.deadLetterRecord.orderId.length ≤ 80 := by
      show c.order.orderId.length ≤ 80
      omega
    have hdead := @deadLetterSession_fits c.deadLetterRecord huuid hbound db
    refine ⟨hpersist, hdead, ?_⟩
    intro hok
    have hstrict := commitStrict_eq (s := persistSession (c.record n hash success eventPayload) db) hok
    rwa [if_pos hpersist] at hstrict

/-! ### An order id of 77 characters -/

/-- The SHA-256 digest of the sample order's canonical text. -/
def digest : String := "3826335f23da7333ee6c691c08f4a6f9a12c72102a9089c0e6988993efa1d809"

theorem length_digest : digest.length = 64 := by decide

/-- The runtime with this digest. -/
def digestUseCase : ProcessOrderUseCase where
  runtime := { Sample.runtime with sha256 := fun _ => digest }
  sourceSystem := "rules-enrichment-daemon"
  enrichmentVersion := 1
  maxProcessingAttempts := 3

theorem writesFit_iff_sample :
    let r := (Sample.call Sample.accept).record 1 digest true (.dict [])
    let db := Database.fresh Sample.rules
    ((persistSession r db).fits = true ∧
      (deadLetterSession (Sample.call Sample.accept).deadLetterRecord db).fits = true ∧
      ((persistResult none r db).1 = .ok () →
        ((persistSession r db).commitStrict db).1 = .ok ())) ↔
    ("ORD-1" : String).length ≤ 76 := by
  have hdec : (Sample.call Sample.accept).Decides digestUseCase
      (decisionOf (Sample.order "ORD-1" Sample.nine) Sample.ten Sample.rules.rows) digest :=
    ⟨rfl, rfl⟩
  have hsha : ∀ t, (digestUseCase.runtime.sha256 t).length = 64 := fun _ => length_digest
  exact writesFit_iff hsha hdec (by decide) 1 true (.dict [])
    (Database.fresh Sample.rules)

def longOrderId : String := String.ofList (List.replicate 77 '7')

def longCall : ProcessCall := { Sample.call Sample.accept with
  order := Sample.order longOrderId Sample.nine }

/-- The external system accepts the submission, and the record of the
    success is rejected for its length. -/
theorem accepted_submission_rejected_for_length :
    let d := decisionOf longCall.order longCall.now Sample.rules.rows
    let r := longCall.successRecord 1 digest d
    longCall.order.orderId.length = 77 ∧
    longCall.Submits digestUseCase (World.fresh Sample.rules) d digest ∧
    longCall.answer digestUseCase d = .ok () ∧
    (persistSession r (Database.fresh Sample.rules)).fits = false ∧
    ((persistSession r (Database.fresh Sample.rules)).commitStrict
      (Database.fresh Sample.rules)).1 = .error stringDataRightTruncation := by
  intro d r
  have hlong : longCall.order.orderId.length = 77 := by decide
  have hfits : (persistSession r (Database.fresh Sample.rules)).fits = false := by
    have hiff := persistSession_fits_iff (r := r) (by decide) length_digest
      (Database.fresh Sample.rules)
    have hid : r.orderId.length = 77 := hlong
    rw [hid] at hiff
    simpa using hiff
  have hok : ((persistSession r (Database.fresh Sample.rules)).commit none
      (Database.fresh Sample.rules)).1 = .ok () := rfl
  have hstrict := commitStrict_eq hok
  rw [hfits] at hstrict
  exact ⟨hlong, ⟨⟨rfl, rfl⟩, rfl, rfl⟩, rfl, hfits, hstrict⟩

end ProcessCall

end RulesEnrichment
