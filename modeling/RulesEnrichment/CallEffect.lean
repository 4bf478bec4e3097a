import RulesEnrichment.DeadLetter

/-! # What a call comes to

    Where nothing faults and the call's id is new, `execute` makes at most
    one submission and records at most one result. `effect` says which, as
    a function of the call and of its order's own rows, and
    `execute_effect` says that `execute` does this and nothing else.

    Up to the generated id and the time (`erase`), the effect depends only
    on the order, the rules, the answer of the external system and the
    order's own rows (`effect_congr`). -/

namespace RulesEnrichment

open Python KeyedTable UnitOfWork

/-! ## The effect of a call -/

/-- Whether the call returns, the submission it makes, and the result it
    records. -/
structure CallEffect where
  ok : Bool
  submission : Option Submission
  record : Option ResultRecord

/-- What a call does when nothing faults. -/
def ProcessCall.effect (uc : ProcessOrderUseCase) (c : ProcessCall) (w : World) : CallEffect :=
  match evaluate uc.runtime c.order c.rules c.now with
  | .error _ => ⟨false, none, none⟩
  | .ok d =>
    match computeHash uc.runtime c.order d.enrichedFields with
    | .error _ => ⟨false, none, none⟩
    | .ok hash =>
      if c.isDuplicate w hash then ⟨true, none, none⟩
      else if !d.hasMatches then ⟨true, none, some (c.noMatchRecord (c.attemptNumber w) hash)⟩
      else
        match c.answer uc d with
        | .ok () => ⟨true, some ⟨c.order.orderId, c.payload uc d, c.correlationId, true⟩,
            some (c.successRecord (c.attemptNumber w) hash d)⟩
        | .error exc => ⟨false, some ⟨c.order.orderId, c.payload uc d, c.correlationId, false⟩,
            some (c.failureRecord (c.attemptNumber w) hash exc)⟩

theorem ProcessCall.effect_record {uc : ProcessOrderUseCase} {c : ProcessCall} {w : World}
    {r : ResultRecord} (h : (c.effect uc w).record = some r) :
    r.orderId = c.order.orderId ∧ r.correlationId = c.correlationId := by
  unfold ProcessCall.effect at h
  repeat' split at h
  all_goals first | cases h; exact ⟨rfl, rfl⟩ | cases h

/-- The world `w` is `w₀` with the results recorded and the submissions
    made. -/
structure Written (w₀ w : World) (records : List ResultRecord) (sent : List Submission) :
    Prop where
  attempts : w.db.attempts = w₀.db.attempts ++ records.map (·.attempt)
  outbox : w.db.outbox.rows = w₀.db.outbox.rows ++ records.map (·.message)
  processedOrders : ∀ o, w.db.processedOrders.find? o =
    ((records.find? fun r => r.success && r.orderId = o).map (·.processed)).or
      (w₀.db.processedOrders.find? o)
  deadLetter : w.db.deadLetter = w₀.db.deadLetter
  rules : w.db.rules = w₀.db.rules
  submissions : w.submissions = w₀.submissions ++ sent
  deliveries : w.deliveries = w₀.deliveries

namespace Written

variable {w₀ w w' : World} {records records' : List ResultRecord} {sent sent' : List Submission}

/-- Nothing is recorded. -/
theorem nothing (hdb : w.db = w₀.db) (hsubmissions : w.submissions = w₀.submissions ++ sent)
    (hdeliveries : w.deliveries = w₀.deliveries) : Written w₀ w [] sent where
  attempts := by rw [hdb, List.map_nil, List.append_nil]
  outbox := by rw [hdb, List.map_nil, List.append_nil]
  processedOrders o := by rw [hdb]; rfl
  deadLetter := by rw [hdb]
  rules := by rw [hdb]
  submissions := hsubmissions
  deliveries := hdeliveries

/-- One result is recorded. -/
theorem of_recorded {r : ResultRecord} (hrec : Recorded r w₀.db w.db)
    (hsubmissions : w.submissions = w₀.submissions ++ sent)
    (hdeliveries : w.deliveries = w₀.deliveries) : Written w₀ w [r] sent where
  attempts := hrec.attempts
  outbox := hrec.outbox
  processedOrders o := by
    rw [hrec.processedOrders]
    by_cases ho : r.orderId = o
    · cases hs : r.success with
      | false => simp [hs]
      | true =>
        have hself := Table.find?_upsert_self w₀.db.processedOrders r.processed
        simp only [if_true, List.find?_cons, hs, ho, decide_true, Bool.and_true, Option.map_some,
          Option.some_or]
        rw [← ho]
        exact hself
    · have hother := Table.find?_upsert_ne w₀.db.processedOrders r.processed
        (show o ≠ r.processed.orderId from fun h => ho h.symm)
      cases hs : r.success with
      | false => simp [hs]
      | true => simpa [hs, ho] using hother
  deadLetter := hrec.deadLetter
  rules := hrec.rules
  submissions := hsubmissions
  deliveries := hdeliveries

/-- One after the other, for different orders. -/
theorem append (h : Written w₀ w records sent) (h' : Written w w' records' sent')
    (hdistinct : ∀ r ∈ records, ∀ r' ∈ records', r.orderId ≠ r'.orderId) :
    Written w₀ w' (records ++ records') (sent ++ sent') where
  attempts := by rw [h'.attempts, h.attempts, List.map_append, List.append_assoc]
  outbox := by rw [h'.outbox, h.outbox, List.map_append, List.append_assoc]
  processedOrders o := by
    rw [h'.processedOrders, h.processedOrders, List.find?_append]
    cases hfind : records.find? fun r => r.success && decide (r.orderId = o) with
    | none => rfl
    | some r =>
      -- then no later record is one of this order
      have hnone : records'.find? (fun r => r.success && decide (r.orderId = o)) = none := by
        rw [List.find?_eq_none]
        intro r' hr' hmatch
        have ho := List.find?_some hfind
        simp only [Bool.and_eq_true, decide_eq_true_eq] at ho hmatch
        exact hdistinct r (List.mem_of_find?_eq_some hfind) r' hr' (ho.2.trans hmatch.2.symm)
      rw [hnone]
      rfl
  deadLetter := h'.deadLetter.trans h.deadLetter
  rules := h'.rules.trans h.rules
  submissions := by rw [h'.submissions, h.submissions, List.append_assoc]
  deliveries := h'.deliveries.trans h.deliveries

/-- The rows of an order for which nothing is recorded. -/
theorem attemptNumber_eq (h : Written w₀ w records sent) {c : ProcessCall}
    (hother : ∀ r ∈ records, r.orderId ≠ c.order.orderId) :
    c.attemptNumber w = c.attemptNumber w₀ := by
  have hnone : (records.map (·.attempt)).filter (·.orderId = c.order.orderId) = [] := by
    rw [List.filter_eq_nil_iff]
    intro a ha
    obtain ⟨r, hr, rfl⟩ := List.mem_map.mp ha
    have hne : r.attempt.orderId ≠ c.order.orderId := hother r hr
    simpa using hne
  unfold ProcessCall.attemptNumber ProcessingAttemptRepository.getNextAttemptNumber
  rw [Session.snapshot_enter, Session.snapshot_enter, h.attempts, List.filter_append, hnone,
    List.append_nil]

theorem isDuplicate_eq (h : Written w₀ w records sent) {c : ProcessCall}
    (hother : ∀ r ∈ records, r.orderId ≠ c.order.orderId) (hash : String) :
    c.isDuplicate w hash = c.isDuplicate w₀ hash := by
  have hnone : records.find? (fun r => r.success && decide (r.orderId = c.order.orderId)) =
      none := by
    rw [List.find?_eq_none]
    intro r hr
    simp [hother r hr]
  unfold ProcessCall.isDuplicate ProcessedOrderRepository.getByOrderId
  rw [Session.snapshot_enter, Session.snapshot_enter, h.processedOrders, hnone]
  rfl

end Written

/-- **The effect of a call.** Where nothing faults and the message id of
    the call is free, `execute` does what `effect` says. -/
theorem execute_effect (uc : ProcessOrderUseCase) {c : ProcessCall} {w : World}
    (hfaults : c.faults = {})
    (hfree : w.db.outbox.find? (messageIdOf c.correlationId c.order.orderId) = none) :
    (c.execute uc w).1.isOk = (c.effect uc w).ok ∧
      Written w (c.execute uc w).2 (c.effect uc w).record.toList
        (c.effect uc w).submission.toList := by
  have hsuccess : c.faults.success = none := by rw [hfaults]
  have hfailure : c.faults.failure = none := by rw [hfaults]
  have hstep := c.execute_step uc w
  generalize (c.execute uc w).1 = res, (c.execute uc w).2 = w' at hstep ⊢
  unfold ProcessCall.effect
  cases hstep with
  | evaluationError e hraise =>
    simp only [hraise]
    exact ⟨rfl, .nothing rfl (List.append_nil _).symm rfl⟩
  | duplicate d hash hdec hdup =>
    simp only [hdec.evaluated, hdec.hashed, hdup, if_true]
    exact ⟨rfl, .nothing rfl (List.append_nil _).symm rfl⟩
  | noMatch d hash db hdec hdup hmatch hrec hfault =>
    simp only [hdec.evaluated, hdec.hashed, hdup, hmatch, Bool.false_eq_true, if_false,
      Bool.not_false, if_true]
    exact ⟨rfl, .of_recorded hrec (List.append_nil _).symm rfl⟩
  | noMatchRefused d hash e hdec hdup hmatch hrefused =>
    exact absurd hrefused (ProcessCall.not_refused hsuccess hfree)
  | submits d hash hsub hstep =>
    simp only [hsub.evaluated, hsub.hashed, hsub.notDuplicate, hsub.hasMatches,
      Bool.false_eq_true, if_false, Bool.not_true]
    cases hstep with
    | succeeded db hanswer hrec hfault =>
      simp only [hanswer]
      exact ⟨rfl, .of_recorded hrec rfl rfl⟩
    | failureRefused accepted exc e htry hrefused =>
      exact absurd hrefused (ProcessCall.not_refused hfailure hfree)
    | failed accepted exc db htry hrec hfault hlimit =>
      -- only the external system can have made the `try` block raise
      obtain ⟨hanswer, rfl⟩ := htry.rejects hsuccess hfree
      simp only [hanswer]
      exact ⟨rfl, .of_recorded hrec rfl rfl⟩
    | deadLetterRefused accepted exc e db htry hrec hfault hlimit hrefused =>
      obtain ⟨hanswer, rfl⟩ := htry.rejects hsuccess hfree
      simp only [hanswer]
      exact ⟨rfl, .of_recorded hrec rfl rfl⟩
    | deadLettered accepted exc db db' htry hrec hfault hlimit hdead hjson =>
      -- the payload of the dead letter is never JSON
      rw [firstForeign_deadLetterPayload] at hjson
      cases hjson

/-! ## Up to ids and times -/

/-- A payload without its correlation id. -/
def withoutCorrelationId : PyVal → PyVal
  | .dict es => .dict (es.filter (·.1 ≠ "correlation_id"))
  | v => v

/-- Some time, for all the times that do not matter. -/
def epoch : DateTime := { year := 1970, month := 1, day := 1 }

def Submission.erase (s : Submission) : Submission :=
  { s with payload := withoutCorrelationId s.payload, correlationId := "" }

def ResultRecord.erase (r : ResultRecord) : ResultRecord :=
  { r with correlationId := "", now := epoch }

def CallEffect.erase (e : CallEffect) : CallEffect :=
  ⟨e.ok, e.submission.map (·.erase), e.record.map (·.erase)⟩

/-- The external system's answer depends on the order id and on the
    payload apart from its correlation id. -/
def AnswersBy (answer : String → PyVal → Except PyErr Unit)
    (submit : String → PyVal → String → Except PyErr Unit) : Prop :=
  ∀ orderId payload id, submit orderId payload id = answer orderId (withoutCorrelationId payload)

/-- **Two calls for one order**, from two worlds with the same rows of the
    order, come to the same up to ids and times. -/
theorem effect_congr {uc : ProcessOrderUseCase} {c c' : ProcessCall} {w w' : World}
    {answer : String → PyVal → Except PyErr Unit} (horder : c'.order = c.order)
    (heval : evaluate uc.runtime c'.order c'.rules c'.now =
      (evaluate uc.runtime c.order c.rules c.now).map fun d =>
        { d with decisionTimestamp := c'.now })
    (hsubmit : AnswersBy answer c.submit) (hsubmit' : AnswersBy answer c'.submit)
    (hnumber : c'.attemptNumber w' = c.attemptNumber w)
    (hstored : ∀ hash, c'.isDuplicate w' hash = c.isDuplicate w hash) :
    (c'.effect uc w').erase = (c.effect uc w).erase := by
  unfold ProcessCall.effect
  rw [heval]
  cases hd : evaluate uc.runtime c.order c.rules c.now with
  | error e => rfl
  | ok d =>
    have hanswer : c'.answer uc { d with decisionTimestamp := c'.now } = c.answer uc d := by
      unfold ProcessCall.answer
      rw [hsubmit, hsubmit', horder]
      rfl
    simp only [Except.map, horder]
    cases hhash : computeHash uc.runtime c.order d.enrichedFields with
    | error e => rfl
    | ok hash =>
      simp only [hstored, hanswer, hnumber]
      by_cases hdup : c.isDuplicate w hash = true
      · rw [if_pos hdup, if_pos hdup]
      · rw [if_neg hdup, if_neg hdup]
        have hmatches : ({ d with decisionTimestamp := c'.now } : EnrichmentDecision).hasMatches =
            d.hasMatches := rfl
        rw [hmatches]
        by_cases hmatch : (!d.hasMatches) = true
        · rw [if_pos hmatch, if_pos hmatch]
          simp only [CallEffect.erase, ProcessCall.noMatchRecord, ProcessCall.record, horder,
            Option.map_some, ResultRecord.erase]
        · rw [if_neg hmatch, if_neg hmatch]
          cases c.answer uc d with
          | ok u =>
            simp only [CallEffect.erase, ProcessCall.successRecord, ProcessCall.record, horder,
              Option.map_some, ResultRecord.erase, Submission.erase]
            rfl
          | error exc =>
            simp only [CallEffect.erase, ProcessCall.failureRecord, ProcessCall.record, horder,
              Option.map_some, ResultRecord.erase, Submission.erase]
            rfl

end RulesEnrichment
