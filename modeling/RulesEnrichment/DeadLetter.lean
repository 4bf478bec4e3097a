import RulesEnrichment.ProcessStep

/-! # Moving an order to the dead letter

    The dead-letter item stores `asdict(order)`. `asdict` copies the
    order's timestamps as `datetime` objects, the JSON column refuses
    them, and the unit of work is rolled back (`firstForeign_order`). So a
    call whose order has used up its attempts never gets to raise the
    error it is about to raise (`exhausted_cases`). -/

namespace RulesEnrichment

open Python

/-! ## The snapshot of an order is not JSON -/

@[simp] theorem firstForeign_number (n : PyNumber) : firstForeign n.toVal = none := by
  cases n <;> rfl

@[simp] theorem firstForeign_optionalStr (s : Option String) :
    firstForeign (optionalStr s) = none := by
  cases s <;> rfl

@[simp] theorem firstForeign_address (a : Address) : firstForeign a.asdict = none := rfl

@[simp] theorem firstForeign_line (l : ExternalOrderLine) : firstForeign l.asdict = none := by
  simp [ExternalOrderLine.asdict, firstForeign, firstForeignFields]

@[simp] theorem firstForeign_lines (ls : List ExternalOrderLine) :
    firstForeignList (ls.map ExternalOrderLine.asdict) = none := by
  induction ls with
  | nil => rfl
  | cons l ls ih => simp [firstForeignList, ih]

/-- The first object that JSON refuses is the order's `created_at`. -/
theorem firstForeign_order (o : ExternalOrder) : firstForeign o.asdict = some "datetime" := by
  simp [ExternalOrder.asdict, firstForeign, firstForeignFields, DateTime.toVal]

theorem firstForeign_deadLetterPayload (c : ProcessCall) :
    firstForeign c.deadLetterRecord.item.payloadJson = some "datetime" := by
  show firstForeign (.dict [("order", c.order.asdict)]) = some "datetime"
  simp [firstForeign, firstForeignFields, firstForeign_order]

/-- The error the flush raises. -/
def notSerializable : PyErr :=
  ⟨.StatementError, "(builtins.TypeError) Object of type datetime is not JSON serializable"⟩

/-- No order is ever moved: the flush of the item raises first. -/
theorem moveToDeadLetter_refused (fault : Option PyErr) (c : ProcessCall) (db : Database) :
    moveToDeadLetter fault c.deadLetterRecord db = (.error notSerializable, db) := by
  -- the first write of the unit of work is refused, so the fault does not matter
  have hf := firstForeign_deadLetterPayload c
  have hinsert : (Write.insertDeadLetter c.deadLetterRecord.item).apply db =
      .error notSerializable := by
    simp only [Write.apply, encodeJsonColumn, hf]
    rfl
  show UnitOfWork.commit Write.apply fault
    [.insertDeadLetter c.deadLetterRecord.item, .insertOutbox c.deadLetterRecord.message] db = _
  simp [UnitOfWork.commit, UnitOfWork.applyAll, hinsert]

/-! ## What an exhausted call does -/

namespace ProcessCall

variable {uc : ProcessOrderUseCase} {c : ProcessCall} {w : World}

/-- The call is for an order that has used up its attempts, and its
    submission fails. -/
structure Exhausted (uc : ProcessOrderUseCase) (c : ProcessCall) (w : World) : Prop where
  submits : ∃ d hash exc, c.Submits uc w d hash ∧ c.answer uc d = .error exc
  limit : uc.maxProcessingAttempts ≤ c.attemptNumber w

/-- The order went to the dead letter: `execute` raises the submission's
    error, and there is one new item for the order and one new pending
    event. -/
structure ReachesDeadLetter (uc : ProcessOrderUseCase) (c : ProcessCall) (w : World) : Prop where
  raises : ∃ msg, (c.execute uc w).1 = .error ⟨.EnrichmentSubmissionError, msg⟩
  item : ∃ i, (c.execute uc w).2.db.deadLetter = w.db.deadLetter ++ [i] ∧
    i.orderId = c.order.orderId ∧ i.correlationId = c.correlationId
  event : ∃ m ∈ (c.execute uc w).2.db.outbox.rows, m.eventType = .OrderMovedToDeadLetter ∧
    m.aggregateId = c.order.orderId ∧ m.status = .PENDING ∧
    w.db.outbox.find? m.messageId = none

/-- An exhausted call moves nothing to the dead letter. It raises the error
    of the flush, unless its failure could not be recorded either. -/
theorem exhausted_cases (h : Exhausted uc c w) (hfault : c.faults.failure = none) :
    (c.execute uc w).2.db.deadLetter = w.db.deadLetter ∧
      ((c.execute uc w).1 = .error notSerializable ∨
        w.db.outbox.find? (messageIdOf c.correlationId c.order.orderId) ≠ none) := by
  obtain ⟨⟨d, hash, exc, hsub, hanswer⟩, hlimit⟩ := h
  have hstep := c.submitStep_of_submits uc w hsub
  generalize (c.execute uc w).1 = res, (c.execute uc w).2 = w' at hstep ⊢
  cases hstep with
  | succeeded db hanswer' => rw [hanswer] at hanswer'; cases hanswer'
  | failureRefused accepted exc' e htry hrefused =>
    -- without a fault only a taken id is left
    refine ⟨rfl, Or.inr ?_⟩
    rcases hrefused with hf | hf
    · exact absurd hfault hf
    · exact hf
  | failed accepted exc' db htry hrec hf hlt => omega
  | deadLetterRefused accepted exc' e db htry hrec hf hlimit' hrefused =>
    -- the failure is on record, then the move raises
    rw [moveToDeadLetter_refused] at hrefused
    obtain ⟨he, _⟩ := Prod.mk.inj hrefused
    have hraises : e = notSerializable := (Except.error.inj he).symm
    rw [hraises]
    exact ⟨hrec.deadLetter, Or.inl rfl⟩
  | deadLettered accepted exc' db db' htry hrec hf hlimit' hdead hjson =>
    -- a move that goes through had a JSON payload
    rw [firstForeign_deadLetterPayload] at hjson
    cases hjson

/-- **Exhausted orders** never reach the dead letter. -/
theorem exhausted_not_reachesDeadLetter (uc : ProcessOrderUseCase) (c : ProcessCall) (w : World)
    (hfaults : c.faults = {}) (h : Exhausted uc c w) :
    ¬ ReachesDeadLetter uc c w := by
  intro hreach
  have hfault : c.faults.failure = none := by rw [hfaults]
  -- the dead letter is as long as before
  obtain ⟨hdead, _⟩ := exhausted_cases h hfault
  obtain ⟨i, hi, _⟩ := hreach.item
  rw [hdead] at hi
  simp at hi

theorem exhausted_sample_one :
    ¬ ReachesDeadLetter (Sample.useCase 1) (Sample.call Sample.refuse) (World.fresh Sample.rules) :=
  exhausted_not_reachesDeadLetter _ _ _ rfl
    ⟨⟨_, _, _, ⟨⟨rfl, rfl⟩, rfl, rfl⟩, rfl⟩, by decide⟩

/-- The order's only attempt fails, and the call ends in the error of the
    flush, with no dead-letter item and only the failure's event. -/
theorem exhausted_sample_raises_statement_error :
    Exhausted (Sample.useCase 1) (Sample.call Sample.refuse) (World.fresh Sample.rules) ∧
    ((Sample.call Sample.refuse).execute (Sample.useCase 1) (World.fresh Sample.rules)).1 =
      .error notSerializable ∧
    ((Sample.call Sample.refuse).execute (Sample.useCase 1)
      (World.fresh Sample.rules)).2.db.deadLetter = [] ∧
    ((Sample.call Sample.refuse).execute (Sample.useCase 1)
      (World.fresh Sample.rules)).2.db.outbox.rows.map (·.eventType) = [.OrderEnrichmentFailed] ∧
    ¬ ReachesDeadLetter (Sample.useCase 1) (Sample.call Sample.refuse)
      (World.fresh Sample.rules) := by
  refine ⟨⟨⟨_, _, _, ⟨⟨rfl, rfl⟩, rfl, rfl⟩, rfl⟩, by decide⟩, rfl, rfl, rfl, ?_⟩
  intro h
  obtain ⟨msg, hmsg⟩ := h.raises
  have hres : ((Sample.call Sample.refuse).execute (Sample.useCase 1) (World.fresh Sample.rules)).1 =
      .error notSerializable := rfl
  rw [hres] at hmsg
  cases hmsg

end ProcessCall

end RulesEnrichment
