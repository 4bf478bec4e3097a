import RulesEnrichment.Effects

/-! # The ways a call of `execute` can go

    `execute_step` inverts `ProcessOrderForEnrichmentUseCase.execute` once:
    `ProcessStep` has a constructor for each way through it, five of them
    (`SubmitStep`) with a submission, and a constructor says everything
    that is known there. The invariants are case analyses of these two. -/

namespace RulesEnrichment

open Python StableSort KeyedTable UnitOfWork

@[simp] theorem World.db_issue (w : World) (id : String) : (w.issue id).db = w.db := rfl

namespace ProcessCall

variable (uc : ProcessOrderUseCase) (c : ProcessCall) (w : World)

/-- The attempt number the call works under. -/
def attemptNumber : Nat :=
  ProcessingAttemptRepository.getNextAttemptNumber (Session.enter w.db) c.order.orderId

/-- The order's stored hash is `hash`. -/
def isDuplicate (hash : String) : Bool :=
  (ProcessedOrderRepository.getByOrderId (Session.enter w.db) c.order.orderId).any
    (·.enrichmentHash = hash)

/-- The reads at the start of the call. -/
theorem getNextAttemptNumber_enter : ProcessingAttemptRepository.getNextAttemptNumber
    (Session.enter w.db) c.order.orderId = c.attemptNumber w := rfl

theorem getByOrderId_enter (hash : String) : ((ProcessedOrderRepository.getByOrderId
    (Session.enter w.db) c.order.orderId).any (·.enrichmentHash = hash)) =
      c.isDuplicate w hash := rfl

theorem isDuplicate_iff {c : ProcessCall} {w : World} {hash : String} :
    c.isDuplicate w hash = true ↔
      ∃ p, w.db.processedOrders.find? c.order.orderId = some p ∧ p.enrichmentHash = hash := by
  unfold isDuplicate ProcessedOrderRepository.getByOrderId
  rw [Session.snapshot_enter]
  cases w.db.processedOrders.find? c.order.orderId <;> simp

/-- The call comes to the decision `d` with hash `hash`. -/
structure Decides (d : EnrichmentDecision) (hash : String) : Prop where
  evaluated : evaluate uc.runtime c.order c.rules c.now = .ok d
  hashed : computeHash uc.runtime c.order d.enrichedFields = .ok hash

/-- A call comes to one decision. -/
theorem Decides.unique {uc : ProcessOrderUseCase} {c : ProcessCall}
    {d d' : EnrichmentDecision} {hash hash' : String} (h : c.Decides uc d hash)
    (h' : c.Decides uc d' hash') : d = d' ∧ hash = hash' := by
  have hd : d = d' := Except.ok.inj (h.evaluated.symm.trans h'.evaluated)
  subst hd
  exact ⟨rfl, Except.ok.inj (h.hashed.symm.trans h'.hashed)⟩

/-- The call submits the enrichment `d`. -/
structure Submits (d : EnrichmentDecision) (hash : String) : Prop extends c.Decides uc d hash where
  notDuplicate : c.isDuplicate w hash = false
  hasMatches : d.hasMatches = true

/-! ### The payloads of the call's events are JSON -/

@[simp] theorem firstForeign_strs (ss : List String) :
    firstForeign (.list (ss.map .str)) = none := by
  induction ss with
  | nil => rfl
  | cons s ss ih =>
    simp only [firstForeign] at ih
    simp [firstForeign, firstForeignList, ih]

/-- A record of this call is refused only by a fault or a taken id. -/
theorem refused_record_iff {fault : Option PyErr} {db : Database} {n : Nat} {hash : String}
    {success : Bool} {eventPayload : PyVal} (hjson : firstForeign eventPayload = none) :
    Refused fault db (c.record n hash success eventPayload).message ↔
      fault ≠ none ∨ db.outbox.find? (messageIdOf c.correlationId c.order.orderId) ≠ none := by
  have hpayload : (c.record n hash success eventPayload).message.payloadJson = eventPayload := rfl
  have hid : (c.record n hash success eventPayload).message.messageId =
      messageIdOf c.correlationId c.order.orderId := rfl
  unfold Refused
  rw [hpayload, hid, hjson]
  simp

/-- Without a fault, and under a free id, no record of the call is refused. -/
theorem not_refused {c : ProcessCall} {w : World} {fault : Option PyErr} (hfault : fault = none)
    (hfree : w.db.outbox.find? (messageIdOf c.correlationId c.order.orderId) = none) :
    ¬ (fault ≠ none ∨
      w.db.outbox.find? (messageIdOf c.correlationId c.order.orderId) ≠ none) := by
  intro hrefused
  rcases hrefused with hf | hf
  · exact hf hfault
  · exact hf hfree

theorem json_successRecord (n : Nat) (hash : String) (d : EnrichmentDecision) :
    firstForeign (c.successRecord n hash d).eventPayload = none := by
  have hrules := firstForeign_strs d.matchedRules
  simp [successRecord, record, firstForeign, firstForeignFields] at hrules ⊢
  exact hrules

/-- The world once the call has submitted `d`. -/
def submitted (d : EnrichmentDecision) (accepted : Bool) : World :=
  { w.issue c.correlationId with
    submissions := w.submissions ++
      [⟨c.order.orderId, c.payload uc d, c.correlationId, accepted⟩] }

/-- How the `try` block came to raise `exc`: the external system refused
    the submission, or it accepted it and the record of the success was
    refused. -/
inductive TryRaises (d : EnrichmentDecision) (hash : String) (exc : PyErr) : Bool → Prop
  | rejected (hanswer : c.answer uc d = .error exc) : TryRaises d hash exc false
  | unrecorded (hanswer : c.answer uc d = .ok ())
      (hrefused : c.faults.success ≠ none ∨
        w.db.outbox.find? (messageIdOf c.correlationId c.order.orderId) ≠ none) :
      TryRaises d hash exc true

/-- If the success can be recorded, then only the external system can make
    the `try` block raise. -/
theorem TryRaises.rejects {uc : ProcessOrderUseCase} {c : ProcessCall} {w : World}
    {d : EnrichmentDecision} {hash : String} {exc : PyErr} {accepted : Bool}
    (htry : c.TryRaises uc w d hash exc accepted) (hfault : c.faults.success = none)
    (hfree : w.db.outbox.find? (messageIdOf c.correlationId c.order.orderId) = none) :
    c.answer uc d = .error exc ∧ accepted = false := by
  cases htry with
  | rejected hanswer => exact ⟨hanswer, rfl⟩
  | unrecorded _ hrefused => exact absurd hrefused (not_refused hfault hfree)

/-- The ways through the `try` block of a call that submits `d`: its
    result and the world it leaves. -/
inductive SubmitStep (d : EnrichmentDecision) (hash : String) : Except PyErr Result → World → Prop
  | succeeded (db : Database) (hanswer : c.answer uc d = .ok ())
      (hrec : Recorded (c.successRecord (c.attemptNumber w) hash d) w.db db)
      (hfault : c.faults.success = none) :
      SubmitStep d hash (.ok (true, c.correlationId, false))
        { c.submitted uc w d true with db := db }
  | failureRefused (accepted : Bool) (exc e : PyErr) (htry : c.TryRaises uc w d hash exc accepted)
      (hrefused : c.faults.failure ≠ none ∨
        w.db.outbox.find? (messageIdOf c.correlationId c.order.orderId) ≠ none) :
      SubmitStep d hash (.error e) (c.submitted uc w d accepted)
  | failed (accepted : Bool) (exc : PyErr) (db : Database)
      (htry : c.TryRaises uc w d hash exc accepted)
      (hrec : Recorded (c.failureRecord (c.attemptNumber w) hash exc) w.db db)
      (hfault : c.faults.failure = none)
      (hlimit : c.attemptNumber w < uc.maxProcessingAttempts) :
      SubmitStep d hash (.error ⟨.EnrichmentSubmissionError, exc.msg⟩)
        { c.submitted uc w d accepted with db := db }
  | deadLetterRefused (accepted : Bool) (exc e : PyErr) (db : Database)
      (htry : c.TryRaises uc w d hash exc accepted)
      (hrec : Recorded (c.failureRecord (c.attemptNumber w) hash exc) w.db db)
      (hfault : c.faults.failure = none)
      (hlimit : uc.maxProcessingAttempts ≤ c.attemptNumber w)
      (hrefused : moveToDeadLetter c.faults.deadLetter c.deadLetterRecord db = (.error e, db)) :
      SubmitStep d hash (.error e) { c.submitted uc w d accepted with db := db }
  | deadLettered (accepted : Bool) (exc : PyErr) (db db' : Database)
      (htry : c.TryRaises uc w d hash exc accepted)
      (hrec : Recorded (c.failureRecord (c.attemptNumber w) hash exc) w.db db)
      (hfault : c.faults.failure = none)
      (hlimit : uc.maxProcessingAttempts ≤ c.attemptNumber w)
      (hdead : DeadLettered c.deadLetterRecord db db')
      (hjson : firstForeign c.deadLetterRecord.item.payloadJson = none) :
      SubmitStep d hash (.error ⟨.EnrichmentSubmissionError, exc.msg⟩)
        { c.submitted uc w d accepted with db := db' }

/-- The ways through `execute`: its result and the world it leaves. -/
inductive ProcessStep : Except PyErr Result → World → Prop
  | evaluationError (e : PyErr)
      (hraise : evaluate uc.runtime c.order c.rules c.now = .error e) :
      ProcessStep (.error e) (w.issue c.correlationId)
  | duplicate (d : EnrichmentDecision) (hash : String) (hdec : c.Decides uc d hash)
      (hdup : c.isDuplicate w hash = true) :
      ProcessStep (.ok (true, c.correlationId, true)) (w.issue c.correlationId)
  | noMatch (d : EnrichmentDecision) (hash : String) (db : Database) (hdec : c.Decides uc d hash)
      (hdup : c.isDuplicate w hash = false) (hmatch : d.hasMatches = false)
      (hrec : Recorded (c.noMatchRecord (c.attemptNumber w) hash) w.db db)
      (hfault : c.faults.success = none) :
      ProcessStep (.ok (true, c.correlationId, false)) { w.issue c.correlationId with db := db }
  | noMatchRefused (d : EnrichmentDecision) (hash : String) (e : PyErr)
      (hdec : c.Decides uc d hash) (hdup : c.isDuplicate w hash = false)
      (hmatch : d.hasMatches = false)
      (hrefused : c.faults.success ≠ none ∨
        w.db.outbox.find? (messageIdOf c.correlationId c.order.orderId) ≠ none) :
      ProcessStep (.error e) (w.issue c.correlationId)
  | submits (d : EnrichmentDecision) (hash : String) (hsub : c.Submits uc w d hash)
      {res : Except PyErr Result} {w' : World} (hstep : c.SubmitStep uc w d hash res w') :
      ProcessStep res w'

/-- The ways through the handler of the `try` block. -/
theorem exceptBlock_step {d : EnrichmentDecision} {hash : String} {accepted : Bool} {exc : PyErr}
    (htry : c.TryRaises uc w d hash exc accepted) :
    c.SubmitStep uc w d hash
      (.error (c.exceptBlock uc (c.attemptNumber w) hash exc (c.submitted uc w d accepted)).1)
      (c.exceptBlock uc (c.attemptNumber w) hash exc (c.submitted uc w d accepted)).2 := by
  have hdb : (c.submitted uc w d accepted).db = w.db := rfl
  unfold exceptBlock
  rw [hdb]
  rcases persistResult_cases c.faults.failure (c.failureRecord (c.attemptNumber w) hash exc) w.db
    with ⟨e, he, hrefused⟩ | ⟨db, hok, hrec, hfault⟩
  · -- the handler raises on its own, before it looks at the limit
    simp only [World.transact, he]
    exact .failureRefused accepted exc e htry ((c.refused_record_iff rfl).mp hrefused)
  · simp only [World.transact, hok]
    by_cases hlimit : uc.maxProcessingAttempts ≤ c.attemptNumber w
    · rw [if_pos hlimit]
      rcases moveToDeadLetter_cases c.faults.deadLetter c.deadLetterRecord db with
        ⟨e, he⟩ | ⟨db', hok', hdead, hjson⟩
      · rw [he]
        exact .deadLetterRefused accepted exc e db htry hrec hfault hlimit he
      · rw [hok']
        exact .deadLettered accepted exc db db' htry hrec hfault hlimit hdead hjson
    · rw [if_neg hlimit]
      exact .failed accepted exc db htry hrec hfault (by omega)

/-- How the `try` block of a call that submits can end. -/
theorem tryBlock_cases (n : Nat) (hash : String) (d : EnrichmentDecision) :
    (∃ exc accepted, c.TryRaises uc w d hash exc accepted ∧
      c.tryBlock uc n hash d (w.issue c.correlationId) = (.error exc, c.submitted uc w d accepted)) ∨
    (∃ db, c.tryBlock uc n hash d (w.issue c.correlationId) =
        (.ok (), { c.submitted uc w d true with db := db }) ∧
      c.answer uc d = .ok () ∧ Recorded (c.successRecord n hash d) w.db db ∧
      c.faults.success = none) := by
  unfold tryBlock submitEnrichment
  cases hanswer : c.answer uc d with
  | error exc => exact Or.inl ⟨exc, false, .rejected hanswer, rfl⟩
  | ok u =>
    simp only [World.db_issue]
    rcases persistResult_cases c.faults.success (c.successRecord n hash d) w.db
      with ⟨e, he, hrefused⟩ | ⟨db, hok, hrec, hfault⟩
    · -- accepted, but the success cannot be recorded
      have hrefused' := (c.refused_record_iff (c.json_successRecord n hash d)).mp hrefused
      refine Or.inl ⟨e, true, .unrecorded hanswer hrefused', ?_⟩
      simp only [World.transact, he]
      rfl
    · right
      simp only [World.transact, hok]
      exact ⟨db, rfl, trivial, hrec, hfault⟩

/-- A call that submits runs its `try` block, and the handler if that
    raises. -/
theorem execute_of_submits {d : EnrichmentDecision} {hash : String} (hsub : c.Submits uc w d hash) :
    c.execute uc w = match c.tryBlock uc (c.attemptNumber w) hash d (w.issue c.correlationId) with
      | (.ok (), w₁) => (.ok (true, c.correlationId, false), w₁)
      | (.error exc, w₁) =>
        match c.exceptBlock uc (c.attemptNumber w) hash exc w₁ with
        | (e, w₂) => (.error e, w₂) := by
  unfold execute
  rcases htry : c.tryBlock uc (c.attemptNumber w) hash d (w.issue c.correlationId) with
    ⟨exc | u, w₁⟩
  all_goals
    simp only [hsub.evaluated, hsub.hashed, World.db_issue, getByOrderId_enter, hsub.notDuplicate,
      hsub.hasMatches, Bool.not_true, Bool.false_eq_true, if_false, getNextAttemptNumber_enter, htry]

/-- The ways through a call that submits. -/
theorem submitStep_of_submits {d : EnrichmentDecision} {hash : String}
    (hsub : c.Submits uc w d hash) :
    c.SubmitStep uc w d hash (c.execute uc w).1 (c.execute uc w).2 := by
  rw [c.execute_of_submits uc w hsub]
  rcases c.tryBlock_cases uc w (c.attemptNumber w) hash d with
    ⟨exc, accepted, htry, hblock⟩ | ⟨db, hblock, hanswer, hrec, hfault⟩
  · -- the handler runs in the world that the block leaves
    rw [hblock]
    exact c.exceptBlock_step uc w htry
  · rw [hblock]
    exact .succeeded db hanswer hrec hfault

/-- **Inversion of `execute`.** -/
theorem execute_step : c.ProcessStep uc w (c.execute uc w).1 (c.execute uc w).2 := by
  cases heval : evaluate uc.runtime c.order c.rules c.now with
  | error e =>
    unfold execute
    rw [heval]
    exact .evaluationError e heval
  | ok d =>
    -- the enriched fields of a decision are JSON, so the hash is always computed
    obtain ⟨hash, hhash⟩ := computeHash_ok uc.runtime c.order d.enrichedFields
    have hdec : c.Decides uc d hash := ⟨heval, hhash⟩
    cases hdup : c.isDuplicate w hash with
    | true =>
      unfold execute
      simp only [heval, hhash, World.db_issue, getByOrderId_enter, hdup, if_true]
      exact .duplicate d hash hdec hdup
    | false =>
      cases hmatch : d.hasMatches with
      | true =>
        have hsub : c.Submits uc w d hash := ⟨hdec, hdup, hmatch⟩
        exact .submits d hash hsub (c.submitStep_of_submits uc w hsub)
      | false =>
        -- no rule matched: an error of this commit leaves the call as it is
        unfold execute
        simp only [heval, hhash, World.db_issue, getByOrderId_enter, hdup, hmatch,
          Bool.false_eq_true, if_false, Bool.not_false, if_true, getNextAttemptNumber_enter]
        rcases persistResult_cases c.faults.success (c.noMatchRecord (c.attemptNumber w) hash) w.db
          with ⟨e, he, hrefused⟩ | ⟨db, hok, hrec, hfault⟩
        · simp only [World.transact, he]
          exact .noMatchRefused d hash e hdec hdup hmatch
            ((c.refused_record_iff rfl).mp hrefused)
        · simp only [World.transact, hok]
          exact .noMatch d hash db hdec hdup hmatch hrec hfault

end ProcessCall

/-! ## Sample data

    One order, one rule and one configuration, on which statements about
    calls are instantiated. -/

namespace Sample

def runtime : Runtime where
  reprStr s := "'" ++ s ++ "'"
  lower s := s.map Char.toLower
  reSearch _ _ := .ok false
  getattr _ _ := none
  -- the order itself is a dataclass with `==` and without a hash
  hashable v := typeName v ≠ "ExternalOrder"
  reprOrder o := "ExternalOrder(order_id='" ++ o.orderId ++ "')"
  sha256 text := text

def useCase (maxProcessingAttempts : Nat) : ProcessOrderUseCase :=
  ⟨runtime, "rules-enrichment-daemon", 1, maxProcessingAttempts⟩

def address : Address := ⟨"Depot", "Via Roma 1", "Milano", "20100", "IT"⟩

/-- Three instants, an hour apart. -/
def nine : DateTime := { year := 2026, month := 3, day := 1, hour := 9 }

def ten : DateTime := { year := 2026, month := 3, day := 1, hour := 10 }

def eleven : DateTime := { year := 2026, month := 3, day := 1, hour := 11 }

def order (orderId : String) (updatedAt : DateTime) : ExternalOrder where
  orderId := orderId
  clientCode := "DHL"
  facilityCode := "FC-MIL-01"
  zoneCode := none
  orderType := "B2C"
  priority := 1
  status := "READY_FOR_ENRICHMENT"
  sourceAddress := address
  destinationAddress := address
  totalWeightKg := .int 1
  totalVolumeM3 := .int 1
  lines := []
  createdAt := nine
  updatedAt := updatedAt

/-- A rule without conditions, which sets the lane. -/
def rule (ruleId lane : String) : EnrichmentRule where
  ruleId := ruleId
  facilityCode := none
  clientCode := none
  zoneCode := none
  ruleType := "destination"
  priority := 10
  isActive := true
  conditionsJson := ⟨[("and", .list [])], rfl⟩
  enrichmentJson := ⟨[("destination_lane", .str lane)], rfl⟩
  validFrom := none
  validTo := none

def rules : Table EnrichmentRule EnrichmentRule.ruleId := ⟨[rule "R1" "ES01"], by decide⟩

def correlationId : String := "6f1c2d3e-4b5a-4c7d-8e9f-0a1b2c3d4e5f"

def secondId : String := "0b7d5a52-91c4-4e0f-a6a3-5d2f8c1e7b90"

def accept : String → PyVal → String → Except PyErr Unit := fun _ _ _ => .ok ()

def refuse : String → PyVal → String → Except PyErr Unit :=
  fun _ _ _ => .error ⟨.ExternalApiUnavailableError, "503 Service Unavailable"⟩

/-- A call for the order "ORD-1" with the one rule. -/
def call (submit : String → PyVal → String → Except PyErr Unit) : ProcessCall where
  order := order "ORD-1" nine
  rules := rules.rows
  now := ten
  correlationId := correlationId
  submit := submit

example : ((call accept).execute (useCase 3) (World.fresh rules)).1 =
    .ok (true, correlationId, false) := by rfl

end Sample

end RulesEnrichment
