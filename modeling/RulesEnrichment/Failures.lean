import RulesEnrichment.Records

/-! # Records of failures

    Two questions about a recorded failure, with the exact answer to each.

    * Is it a real one? The `try` block of `execute` spans the submission
      and the record of its success. Where the external system accepts and
      the record is lost, the handler stores a failure
      (`failuresAreReal_iff`).
    * Is every failure recorded? The rules are evaluated before the `try`
      block, so a rule that raises leaves no trace (`recordsFailure_iff`). -/

namespace RulesEnrichment

open StepMachine UnitOfWork KeyedTable

namespace Processing

/-! ## A recorded failure is a real failure -/

/-- A submission under this correlation id returned normally. -/
def Accepted (w : World) (id : String) : Prop :=
  ∃ s ∈ w.submissions, s.correlationId = id ∧ s.accepted = true

/-- Nothing that was accepted is stored as a failure. -/
structure FailuresAreReal (w : World) : Prop where
  attempts : ∀ a ∈ w.db.attempts, a.status = .FAILED → ¬ Accepted w a.correlationId
  messages : ∀ m ∈ w.db.outbox.rows, m.eventType = .OrderEnrichmentFailed →
    ∀ id, m.messageId = messageIdOf id m.aggregateId → ¬ Accepted w id
  deadLetter : ∀ i ∈ w.db.deadLetter, ¬ Accepted w i.correlationId

/-- The external system accepts the submission, the commit of the success
    faults, and the commit of the failure goes through. -/
def MisrecordsSuccess (uc : ProcessOrderUseCase) (w : World) : Input → Prop
  | .process c => (∃ d hash, c.Submits uc w d hash ∧ c.answer uc d = .ok ()) ∧
      c.faults.success ≠ none ∧ c.faults.failure = none
  | .publish _ => False

/-- What a call stores as a failure, `w'` being the world it leaves. -/
structure NewFailures (c : ProcessCall) (w w' : World) : Prop where
  submissions : ∃ ss, w'.submissions = w.submissions ++ ss ∧
    ∀ s ∈ ss, s.correlationId = c.correlationId
  attempts : ∀ a ∈ w'.db.attempts, a.status = .FAILED →
    a ∈ w.db.attempts ∨ (a.correlationId = c.correlationId ∧ ¬ Accepted w' c.correlationId)
  messages : ∀ m ∈ w'.db.outbox.rows, m.eventType = .OrderEnrichmentFailed →
    m ∈ w.db.outbox.rows ∨
      (m.messageId = messageIdOf c.correlationId m.aggregateId ∧ ¬ Accepted w' c.correlationId)
  deadLetter : ∀ i ∈ w'.db.deadLetter,
    i ∈ w.db.deadLetter ∨ (i.correlationId = c.correlationId ∧ ¬ Accepted w' c.correlationId)

/-- What is stored from before the call is not accepted under its id. -/
theorem FailuresAreReal.extend {c : ProcessCall} {w w' : World} (h : FailuresAreReal w)
    (hids : IdsIssued w) (hfresh : FreshId w (.process c)) (hnew : NewFailures c w w') :
    FailuresAreReal w' := by
  obtain ⟨huuid, hissued⟩ := hfresh
  -- the call submits under its own id only
  have hacc : ∀ id, id ≠ c.correlationId → Accepted w' id → Accepted w id := by
    intro id hne haccepted
    obtain ⟨s, hs, hid, hok⟩ := haccepted
    obtain ⟨ss, hsubs, hss⟩ := hnew.submissions
    rw [hsubs, List.mem_append] at hs
    rcases hs with hs | hs
    · exact ⟨s, hs, hid, hok⟩
    · have hown : id = c.correlationId := by rw [← hid, hss s hs]
      exact absurd hown hne
  constructor
  · intro a ha hfail
    rcases hnew.attempts a ha hfail with hold | ⟨hid, hno⟩
    · have hne : a.correlationId ≠ c.correlationId := by
        intro heq
        have hin : a.correlationId ∈ w.issued := hids.attempts a hold
        rw [heq] at hin
        exact hissued hin
      exact fun hok => h.attempts a hold hfail (hacc _ hne hok)
    · rw [hid]
      exact hno
  · intro m hm hfail id hid
    rcases hnew.messages m hm hfail with hold | ⟨hid', hno⟩
    · -- an old message does not carry the new id
      have hne : id ≠ c.correlationId := by
        intro heq
        rw [heq] at hid
        have hfree := hids.messageId_free huuid hissued m.aggregateId
        exact (Table.find?_eq_none_iff _ _).mp hfree m hold hid
      exact fun hok => h.messages m hold hfail id hid (hacc id hne hok)
    · rw [messageIdOf_cancel (hid.symm.trans hid')]
      exact hno
  · intro i hi
    rcases hnew.deadLetter i hi with hold | ⟨hid, hno⟩
    · have hne : i.correlationId ≠ c.correlationId := by
        intro heq
        have hin : i.correlationId ∈ w.issued := hids.deadLetter i hold
        rw [heq] at hin
        exact hissued hin
      exact fun hok => h.deadLetter i hold (hacc _ hne hok)
    · rw [hid]
      exact hno

/-- A call that stores no failure. -/
theorem NewFailures.of_unchanged {c : ProcessCall} {w w' : World}
    (hsub : ∃ ss, w'.submissions = w.submissions ++ ss ∧
      ∀ s ∈ ss, s.correlationId = c.correlationId) (hdb : w'.db = w.db) : NewFailures c w w' := by
  refine ⟨hsub, ?_, ?_, ?_⟩
  · intro a ha _
    rw [hdb] at ha
    exact Or.inl ha
  · intro m hm _
    rw [hdb] at hm
    exact Or.inl hm
  · intro i hi
    rw [hdb] at hi
    exact Or.inl hi

/-- A call that records a result: a success, or a failure that was not
    accepted. -/
theorem NewFailures.of_recorded {c : ProcessCall} {w w' : World} {r : ResultRecord}
    (hsub : ∃ ss, w'.submissions = w.submissions ++ ss ∧
      ∀ s ∈ ss, s.correlationId = c.correlationId)
    (hr : r.correlationId = c.correlationId) (hrec : Recorded r w.db w'.db)
    (hno : r.success = false → ¬ Accepted w' c.correlationId) : NewFailures c w w' := by
  refine ⟨hsub, ?_, ?_, ?_⟩
  · intro a ha hfail
    rcases hrec.mem_attempts.mp ha with ha | rfl
    · exact Or.inl ha
    · -- the status of the attempt says whether it was a success
      refine Or.inr ⟨hr, hno ?_⟩
      cases hs : r.success with
      | false => rfl
      | true => simp [ResultRecord.attempt, hs] at hfail
  · intro m hm hfail
    rcases hrec.mem_outbox.mp hm with hm | rfl
    · exact Or.inl hm
    · have hid : r.message.messageId = messageIdOf c.correlationId r.message.aggregateId := by
        rw [← hr]
        rfl
      refine Or.inr ⟨hid, hno ?_⟩
      cases hs : r.success with
      | false => rfl
      | true => simp [ResultRecord.message, hs] at hfail
  · intro i hi
    rw [hrec.deadLetter] at hi
    exact Or.inl hi

/-- A failure that went to the dead letter as well. -/
theorem NewFailures.deadLettered {c : ProcessCall} {w w₁ w' : World} (h : NewFailures c w w₁)
    (hsubs : w'.submissions = w₁.submissions)
    (hdead : DeadLettered c.deadLetterRecord w₁.db w'.db)
    (hno : ¬ Accepted w₁ c.correlationId) : NewFailures c w w' := by
  have hacc : ∀ id, Accepted w' id ↔ Accepted w₁ id := by
    intro id
    unfold Accepted
    rw [hsubs]
  refine ⟨?_, ?_, ?_, ?_⟩
  · rw [hsubs]
    exact h.submissions
  · intro a ha hfail
    rw [hdead.attempts] at ha
    rw [hacc]
    exact h.attempts a ha hfail
  · intro m hm hfail
    rw [hacc]
    rcases hdead.mem_outbox.mp hm with hm | rfl
    · exact h.messages m hm hfail
    · -- the event of the move is of another type
      cases hfail
  · intro i hi
    rw [hacc]
    rcases hdead.mem_deadLetter.mp hi with hi | rfl
    · exact h.deadLetter i hi
    · exact Or.inr ⟨rfl, hno⟩

section submit

variable {uc : ProcessOrderUseCase} {c : ProcessCall} {w : World} {d : EnrichmentDecision}
  {hash : String}

theorem submitted_submissions (accepted : Bool) (db : Database) :
    ∃ ss, ({ c.submitted uc w d accepted with db := db } : World).submissions =
        w.submissions ++ ss ∧ ∀ s ∈ ss, s.correlationId = c.correlationId :=
  ⟨_, rfl, by simp⟩

/-- Under the call's id the submission was accepted exactly if this one was. -/
theorem accepted_submitted_iff (hids : IdsIssued w) (hnew : c.correlationId ∉ w.issued)
    (accepted : Bool) (db : Database) :
    Accepted { c.submitted uc w d accepted with db := db } c.correlationId ↔ accepted = true := by
  constructor
  · intro haccepted
    obtain ⟨s, hs, hid, hok⟩ := haccepted
    rcases List.mem_append.mp hs with hs | hs
    · -- an earlier submission went out under an id handed out before
      have hold : s.correlationId ∈ w.issued := hids.submissions s hs
      rw [hid] at hold
      exact absurd hold hnew
    · rw [List.mem_singleton.mp hs] at hok
      exact hok
  · intro haccepted
    subst haccepted
    exact ⟨_, List.mem_append_right _ (List.mem_singleton.mpr rfl), rfl, rfl⟩

/-- Once a failure is recorded, all depends on the external system's
    answer: what was refused is a real failure, what was accepted is not. -/
theorem failuresAreReal_of_tryRaises (h : FailuresAreReal w) (hids : IdsIssued w)
    (hfresh : FreshId w (.process c)) (hsub : c.Submits uc w d hash)
    {accepted : Bool} {exc : PyErr} (htry : c.TryRaises uc w d hash exc accepted)
    (hfault : c.faults.failure = none) {db : Database}
    (hrecorded : (c.failureRecord (c.attemptNumber w) hash exc).attempt ∈ db.attempts)
    (hnew : accepted = false → NewFailures c w { c.submitted uc w d accepted with db := db }) :
    FailuresAreReal { c.submitted uc w d accepted with db := db } ↔
      ¬ MisrecordsSuccess uc w (.process c) := by
  cases htry with
  | rejected hanswer =>
    refine iff_of_true (h.extend hids hfresh (hnew rfl)) ?_
    intro hmis
    obtain ⟨⟨d', hash', hsub', hanswer'⟩, _⟩ := hmis
    obtain ⟨rfl, rfl⟩ := hsub.toDecides.unique hsub'.toDecides
    rw [hanswer] at hanswer'
    cases hanswer'
  | unrecorded hanswer hrefused =>
    refine iff_of_false ?_ ?_
    · intro hreal
      exact hreal.attempts _ hrecorded rfl ((accepted_submitted_iff hids hfresh.2 true db).mpr rfl)
    · intro hno
      refine hno ⟨⟨d, hash, hsub, hanswer⟩, ?_, hfault⟩
      -- a new id is free, so only a fault can have refused the success
      rcases hrefused with hf | hf
      · exact hf
      · exact absurd (hids.messageId_free hfresh.1 hfresh.2 _) hf

/-- What a refused submission stores when its failure is recorded. -/
theorem newFailures_failed (hids : IdsIssued w) (hfresh : FreshId w (.process c))
    {accepted : Bool} {exc : PyErr} {db : Database}
    (hrec : Recorded (c.failureRecord (c.attemptNumber w) hash exc) w.db db)
    (hrefused : accepted = false) :
    NewFailures c w { c.submitted uc w d accepted with db := db } := by
  refine NewFailures.of_recorded (submitted_submissions accepted db) rfl hrec ?_
  intro _ hok
  have hacc := (accepted_submitted_iff hids hfresh.2 accepted db).mp hok
  rw [hrefused] at hacc
  cases hacc

/-- A call that submits stores only real failures exactly if it does not
    misrecord a success. -/
theorem failuresAreReal_submit (h : FailuresAreReal w) (hids : IdsIssued w)
    (hfresh : FreshId w (.process c)) (hsub : c.Submits uc w d hash) :
    FailuresAreReal (c.execute uc w).2 ↔ ¬ MisrecordsSuccess uc w (.process c) := by
  have hfree : w.db.outbox.find? (messageIdOf c.correlationId c.order.orderId) = none :=
    hids.messageId_free hfresh.1 hfresh.2 _
  have hstep := c.submitStep_of_submits uc w hsub
  generalize (c.execute uc w).1 = res, (c.execute uc w).2 = w' at hstep ⊢
  cases hstep with
  | succeeded db hanswer hrec hfault =>
    refine iff_of_true (h.extend hids hfresh
      (NewFailures.of_recorded (submitted_submissions true db) rfl hrec nofun)) ?_
    intro hmis
    exact hmis.2.1 hfault
  | failureRefused accepted exc e htry hrefused =>
    -- neither result is on record, so nothing is stored
    refine iff_of_true (h.extend hids hfresh
      (NewFailures.of_unchanged (submitted_submissions accepted w.db) rfl)) ?_
    intro hmis
    exact ProcessCall.not_refused hmis.2.2 hfree hrefused
  | failed accepted exc db htry hrec hfault hlimit =>
    exact failuresAreReal_of_tryRaises h hids hfresh hsub htry hfault
      (hrec.mem_attempts.mpr (Or.inr rfl)) (newFailures_failed hids hfresh hrec)
  | deadLetterRefused accepted exc e db htry hrec hfault hlimit hrefused =>
    exact failuresAreReal_of_tryRaises h hids hfresh hsub htry hfault
      (hrec.mem_attempts.mpr (Or.inr rfl)) (newFailures_failed hids hfresh hrec)
  | deadLettered accepted exc db db' htry hrec hfault hlimit hdead hjson =>
    refine failuresAreReal_of_tryRaises h hids hfresh hsub htry hfault ?_ ?_
    · rw [hdead.attempts]
      exact hrec.mem_attempts.mpr (Or.inr rfl)
    · intro hf
      have hfailed : NewFailures c w { c.submitted uc w d accepted with db := db } :=
        newFailures_failed hids hfresh hrec hf
      refine hfailed.deadLettered rfl hdead ?_
      intro hok
      have hacc := (accepted_submitted_iff hids hfresh.2 accepted db).mp hok
      rw [hf] at hacc
      cases hacc

end submit

/-- A call that does not submit records no failure. -/
theorem newFailures_of_not_submits {uc : ProcessOrderUseCase} {c : ProcessCall} {w : World}
    (hno : ∀ d hash, ¬ c.Submits uc w d hash) : NewFailures c w (c.execute uc w).2 := by
  obtain ⟨_, hsubs⟩ := c.execute_issues uc w
  have hstep := c.execute_step uc w
  generalize (c.execute uc w).1 = res, (c.execute uc w).2 = w' at hstep hsubs ⊢
  cases hstep with
  | evaluationError e hraise => exact .of_unchanged hsubs rfl
  | duplicate d hash hdec hdup => exact .of_unchanged hsubs rfl
  | noMatch d hash db hdec hdup hmatch hrec hfault =>
    exact .of_recorded (r := c.noMatchRecord (c.attemptNumber w) hash) hsubs rfl hrec nofun
  | noMatchRefused d hash e hdec hdup hmatch hrefused => exact .of_unchanged hsubs rfl
  | submits d hash hsub hstep => exact absurd hsub (hno d hash)

/-- Within one step. -/
theorem failuresAreReal_step (uc : ProcessOrderUseCase) {w : World} {i : Input}
    (hids : IdsIssued w) (h : FailuresAreReal w) (hfresh : FreshId w i) :
    FailuresAreReal (step uc w i) ↔ ¬ MisrecordsSuccess uc w i := by
  cases i with
  | process c =>
    by_cases hsub : ∃ d hash, c.Submits uc w d hash
    · obtain ⟨d, hash, hsub⟩ := hsub
      exact failuresAreReal_submit h hids hfresh hsub
    · refine iff_of_true (h.extend hids hfresh (newFailures_of_not_submits ?_)) ?_
      · exact fun d hash hs => hsub ⟨d, hash, hs⟩
      · intro hmis
        obtain ⟨⟨d, hash, hs, _⟩, _⟩ := hmis
        exact hsub ⟨d, hash, hs⟩
  | publish c =>
    -- publishing neither submits nor changes what an attempt or an event is about
    refine iff_of_true ?_ id
    show FailuresAreReal (publishOutbox c w).2
    rcases publishOutbox_cases c w with ⟨e, _, hres⟩ | ⟨db, _, hpub, hres⟩
    · rw [hres]
      exact ⟨h.attempts, h.messages, h.deadLetter⟩
    · rw [hres]
      refine ⟨?_, ?_, ?_⟩
      · intro a ha
        have ha : a ∈ db.attempts := ha
        rw [hpub.attempts] at ha
        exact h.attempts a ha
      · intro m' hm' hfail id hid
        obtain ⟨m, hm, hsame, htype, horder⟩ := hpub.exists_source hm'
        rw [htype] at hfail
        rw [hsame, horder] at hid
        exact h.messages m hm hfail id hid
      · intro i hi
        have hi : i ∈ db.deadLetter := hi
        rw [hpub.deadLetter] at hi
        exact h.deadLetter i hi

/-- **Recorded failures.** Along every run from a fresh world, what is
    stored as a failure was never accepted, exactly if no call of the run
    misrecords a success. -/
theorem failuresAreReal_iff (uc : ProcessOrderUseCase)
    (rules : Table EnrichmentRule EnrichmentRule.ruleId) {is : List Input}
    (hl : (machine uc).Legal (World.fresh rules) is) :
    (∀ p ∈ (machine uc).visits (World.fresh rules) is,
      FailuresAreReal ((machine uc).step p.1 p.2)) ↔
    ∀ p ∈ (machine uc).visits (World.fresh rules) is, ¬ MisrecordsSuccess uc p.1 p.2 := by
  have hstart : FailuresAreReal (World.fresh rules) := by
    constructor <;> intro x hx <;> cases hx
  exact (machine uc).always_iff IdsIssued (fun _ _ hids hfresh => hids.preserve_step uc hfresh)
    (fun _ _ hids h hfresh => failuresAreReal_step uc hids h hfresh)
    (IdsIssued.fresh rules) hstart hl

/-! ### An accepted submission on record as a failure

    The database is down for the commit of the success and back for the
    commit of the failure. -/

def lostSuccess : ProcessCall :=
  { Sample.call Sample.accept with
    faults := { success := some ⟨.OperationalError, "server closed the connection"⟩ } }

theorem lostSuccess_legal :
    (machine (Sample.useCase 3)).Legal (World.fresh Sample.rules) [.process lostSuccess] := by
  intro p hp
  rw [List.mem_singleton.mp hp]
  exact ⟨by decide, by decide⟩

theorem failuresAreReal_iff_lostSuccess :
    (∀ p ∈ (machine (Sample.useCase 3)).visits (World.fresh Sample.rules) [.process lostSuccess],
      FailuresAreReal ((machine (Sample.useCase 3)).step p.1 p.2)) ↔
    ∀ p ∈ (machine (Sample.useCase 3)).visits (World.fresh Sample.rules) [.process lostSuccess],
      ¬ MisrecordsSuccess (Sample.useCase 3) p.1 p.2 :=
  failuresAreReal_iff (Sample.useCase 3) Sample.rules lostSuccess_legal

theorem accepted_recorded_as_failure :
    (machine (Sample.useCase 3)).Legal (World.fresh Sample.rules) [.process lostSuccess] ∧
    ¬ FailuresAreReal ((machine (Sample.useCase 3)).run (World.fresh Sample.rules)
      [.process lostSuccess]) := by
  refine ⟨lostSuccess_legal, ?_⟩
  intro h
  have hstored : ((machine (Sample.useCase 3)).run (World.fresh Sample.rules)
      [.process lostSuccess]).db.attempts.map (fun a => (a.status, a.correlationId)) =
        [(.FAILED, Sample.correlationId)] := by rfl
  have hsent : ((machine (Sample.useCase 3)).run (World.fresh Sample.rules)
      [.process lostSuccess]).submissions.map (fun s => (s.correlationId, s.accepted)) =
        [(Sample.correlationId, true)] := by rfl
  obtain ⟨a, ha, hattempt⟩ := List.mem_map.mp (hstored.symm ▸ List.mem_singleton.mpr rfl)
  obtain ⟨s, hs, hsubmission⟩ := List.mem_map.mp (hsent.symm ▸ List.mem_singleton.mpr rfl)
  obtain ⟨hstatus, hid⟩ := Prod.mk.inj hattempt
  obtain ⟨hid', hok⟩ := Prod.mk.inj hsubmission
  have hsame : s.correlationId = a.correlationId := by rw [hid', hid]
  exact h.attempts a ha hstatus ⟨s, hs, hsame, hok⟩

end Processing

/-! ## Every failure is recorded -/

namespace ProcessCall

/-- The call has recorded its failure: one more attempt, and one more event
    of a failure. -/
structure RecordsFailure (uc : ProcessOrderUseCase) (c : ProcessCall) (w : World) : Prop where
  attempt : ∃ a, (c.execute uc w).2.db.attempts = w.db.attempts ++ [a] ∧
    a.orderId = c.order.orderId ∧ a.correlationId = c.correlationId ∧
    a.attemptNumber = c.attemptNumber w ∧ a.status = .FAILED
  event : ∃ m, (c.execute uc w).2.db.outbox.rows.filter
      (fun m => m.eventType = .OrderEnrichmentFailed) =
        w.db.outbox.rows.filter (fun m => m.eventType = .OrderEnrichmentFailed) ++ [m] ∧
    m.messageId = messageIdOf c.correlationId c.order.orderId ∧
    m.aggregateId = c.order.orderId

variable {uc : ProcessOrderUseCase} {c : ProcessCall} {w : World}

/-- A call that submits records its failure, if the database does not fault
    and its id is free. -/
theorem recordsFailure_of_submits (hfaults : c.faults = {})
    (hfree : w.db.outbox.find? (messageIdOf c.correlationId c.order.orderId) = none)
    {d : EnrichmentDecision} {hash : String} (hsub : c.Submits uc w d hash) {e : PyErr}
    (hraise : (c.execute uc w).1 = .error e) : RecordsFailure uc c w := by
  have hnew : ∀ exc, (w.db.outbox.rows ++ [(c.failureRecord (c.attemptNumber w) hash exc).message]).filter
      (fun m => m.eventType = .OrderEnrichmentFailed) =
        w.db.outbox.rows.filter (fun m => m.eventType = .OrderEnrichmentFailed) ++
          [(c.failureRecord (c.attemptNumber w) hash exc).message] := by
    intro exc
    rw [List.filter_append]
    rfl
  have hrecords : ∀ exc w', (c.execute uc w).2 = w' →
      w'.db.attempts = w.db.attempts ++ [(c.failureRecord (c.attemptNumber w) hash exc).attempt] →
      w'.db.outbox.rows.filter (fun m => m.eventType = .OrderEnrichmentFailed) =
        w.db.outbox.rows.filter (fun m => m.eventType = .OrderEnrichmentFailed) ++
          [(c.failureRecord (c.attemptNumber w) hash exc).message] →
      RecordsFailure uc c w := by
    intro exc w' hw' hatt hmsg
    subst hw'
    exact ⟨⟨_, hatt, rfl, rfl, rfl, rfl⟩, ⟨_, hmsg, rfl, rfl⟩⟩
  have hstep := c.submitStep_of_submits uc w hsub
  rw [hraise] at hstep
  -- every way to raise after the submission records the failure first
  generalize hw' : (c.execute uc w).2 = w' at hstep
  cases hstep with
  | failureRefused accepted exc e' htry hrefused =>
    have hfailure : c.faults.failure = none := by rw [hfaults]
    exact absurd hrefused (ProcessCall.not_refused hfailure hfree)
  | failed accepted exc db htry hrec hfault hlimit =>
    refine hrecords exc _ hw' hrec.attempts ?_
    show db.outbox.rows.filter _ = _
    rw [hrec.outbox, hnew]
  | deadLetterRefused accepted exc e' db htry hrec hfault hlimit hrefused =>
    refine hrecords exc _ hw' hrec.attempts ?_
    show db.outbox.rows.filter _ = _
    rw [hrec.outbox, hnew]
  | deadLettered accepted exc db db' htry hrec hfault hlimit hdead hjson =>
    refine hrecords exc _ hw' (hdead.attempts.trans hrec.attempts) ?_
    show db'.outbox.rows.filter _ = _
    -- the event of the dead letter is of another type
    rw [hdead.outbox, hrec.outbox, List.filter_append, hnew]
    simp [DeadLetterRecord.message]

/-- **Failures on record.** Without database faults, a call that raises has
    recorded its failure exactly if none of its rules raises. -/
theorem recordsFailure_iff (hfaults : c.faults = {})
    (hfree : w.db.outbox.find? (messageIdOf c.correlationId c.order.orderId) = none) :
    (∀ e, (c.execute uc w).1 = .error e → RecordsFailure uc c w) ↔
      ∀ r ∈ c.rules, r.Evaluates uc.runtime c.order c.now := by
  constructor
  · intro h
    cases heval : evaluate uc.runtime c.order c.rules c.now with
    | ok d => exact all_of_evaluate heval
    | error e =>
      -- the call raises before the `try` block and leaves the database as it is
      have hres : c.execute uc w = (.error e, w.issue c.correlationId) := by
        unfold execute
        rw [heval]
      have hraise : (c.execute uc w).1 = .error e := by rw [hres]
      obtain ⟨a, ha, _⟩ := (h e hraise).attempt
      rw [hres] at ha
      simp [World.issue] at ha
  · intro hall e hraise
    have heval := evaluate_of_all hall
    have hstep := c.execute_step uc w
    rw [hraise] at hstep
    generalize hw' : (c.execute uc w).2 = w' at hstep
    -- the rules evaluate, so only a record of the call can have raised
    cases hstep with
    | evaluationError e' herr =>
      rw [heval] at herr
      cases herr
    | noMatchRefused d hash e' hdec hdup hmatch hrefused =>
      have hsuccess : c.faults.success = none := by rw [hfaults]
      exact absurd hrefused (ProcessCall.not_refused hsuccess hfree)
    | submits d hash hsub hstep => exact recordsFailure_of_submits hfaults hfree hsub hraise

theorem recordsFailure_iff_sample :
    (∀ e, ((Sample.call Sample.refuse).execute (Sample.useCase 3) (World.fresh Sample.rules)).1 =
      .error e → RecordsFailure (Sample.useCase 3) (Sample.call Sample.refuse)
        (World.fresh Sample.rules)) ↔
    ∀ r ∈ (Sample.call Sample.refuse).rules,
      r.Evaluates Sample.runtime (Sample.call Sample.refuse).order (Sample.call Sample.refuse).now :=
  recordsFailure_iff rfl rfl

/-! ### A failure without a trace

    A rule without a condition is not a predicate either, and raises. -/

def badRule : EnrichmentRule := { Sample.rule "R-BAD" "ES01" with conditionsJson := .empty }

def badRuleCall : ProcessCall := { Sample.call Sample.accept with rules := [badRule] }

theorem bad_rule_leaves_no_trace :
    (badRuleCall.execute (Sample.useCase 3) (World.fresh Sample.rules)).1 =
      .error ⟨.InvalidRuleDefinitionError, "predicate requires field and op"⟩ ∧
    ¬ RecordsFailure (Sample.useCase 3) badRuleCall (World.fresh Sample.rules) := by
  refine ⟨rfl, ?_⟩
  intro h
  obtain ⟨a, ha, _⟩ := h.attempt
  have hnone : (badRuleCall.execute (Sample.useCase 3) (World.fresh Sample.rules)).2.db.attempts =
      [] := rfl
  rw [hnone] at ha
  simp at ha

end ProcessCall

end RulesEnrichment
