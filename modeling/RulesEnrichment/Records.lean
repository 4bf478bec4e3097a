import RulesEnrichment.Lib.Machine
import RulesEnrichment.ProcessStep

/-! # Attempts, events and processed orders

    The daemon's calls, one after another, as a machine, and the invariants
    of the three tables they write:

    * `InStep`: every attempt has its event, every processed order its
      latest success.
    * `IdsIssued`: every correlation id that is stored was handed out by
      the id generator, so the message id of a new call is free.

    Each invariant is shown to be kept by a recorded result, by a move to
    the dead letter and by a publish call; `execute_writes` says that a
    call does nothing else. -/

namespace RulesEnrichment

open StepMachine UnitOfWork StableSort KeyedTable

/-! ## Generated ids -/

def isHexDigit (c : Char) : Bool := ('0' ≤ c && c ≤ '9') || ('a' ≤ c && c ≤ 'f')

/-- `str(uuid4())`: 36 characters, hexadecimal digits in five groups. -/
def isUuid (s : String) : Bool :=
  s.toList.length = 36 &&
    s.toList.zipIdx.all fun p => if p.2 ∈ [8, 13, 18, 23] then p.1 = '-' else isHexDigit p.1

theorem length_of_isUuid {s : String} (h : isUuid s = true) : s.toList.length = 36 := by
  unfold isUuid at h
  rw [Bool.and_eq_true] at h
  simpa using h.1

/-- A UUID has no dash within its first group. -/
theorem fifth_of_isUuid {s : String} (h : isUuid s = true) : s.toList[4]? ≠ some '-' := by
  intro hdash
  unfold isUuid at h
  rw [Bool.and_eq_true] at h
  have hmem : ('-', 4) ∈ s.toList.zipIdx := List.mem_zipIdx_iff_getElem?.mpr hdash
  have hhex := List.all_eq_true.mp h.2 _ hmem
  revert hhex
  decide

/-- A message id determines the correlation id in it. -/
theorem messageIdOf_inj {c c' o o' : String} (hc : isUuid c = true) (hc' : isUuid c' = true)
    (h : messageIdOf c o = messageIdOf c' o') : c = c' := by
  have hlist := String.toList_inj.mpr h
  simp only [messageIdOf, String.toList_append, List.append_assoc] at hlist
  have htail := List.append_cancel_left hlist
  -- both ids are 36 characters long, so the rest splits at the same place
  have hlen : c.toList.length = c'.toList.length := by
    rw [length_of_isUuid hc, length_of_isUuid hc']
  exact String.toList_inj.mp (List.append_inj htail hlen).1

/-- So does the message id of one order, whatever the form of the ids. -/
theorem messageIdOf_cancel {c c' o : String} (h : messageIdOf c o = messageIdOf c' o) :
    c = c' := by
  have hlist := String.toList_inj.mpr h
  unfold messageIdOf at hlist
  simp only [String.toList_append, List.append_assoc] at hlist
  have htail := List.append_cancel_left hlist
  exact String.toList_inj.mp (List.append_cancel_right htail)

/-- An event of the dead letter never has the id of a result's event. -/
theorem messageIdOf_ne_deadLetter {c c' o : String} (hc : isUuid c = true) :
    messageIdOf c o ≠ deadLetterMessageIdOf c' := by
  intro h
  have hsplit : "outbox-dead-letter-".toList = "outbox-".toList ++ "dead-letter-".toList := by decide
  have hlist := String.toList_inj.mpr h
  unfold messageIdOf deadLetterMessageIdOf at hlist
  simp only [String.toList_append, List.append_assoc] at hlist
  rw [hsplit, List.append_assoc] at hlist
  have htail := List.append_cancel_left hlist
  -- the fifth character tells them apart
  have hleft : (c.toList ++ ("-".toList ++ o.toList))[4]? = c.toList[4]? :=
    List.getElem?_append_left (by rw [length_of_isUuid hc]; omega)
  have hright : ("dead-letter-".toList ++ c'.toList)[4]? = some '-' := by
    rw [List.getElem?_append_left (by decide)]
    decide
  rw [htail, hright] at hleft
  exact fifth_of_isUuid hc hleft.symm

/-! ## The machine -/

namespace Processing

/-- A call of the daemon, and what the environment does during it. -/
inductive Input where
  | process (c : ProcessCall)
  | publish (c : PublishCall)

def step (uc : ProcessOrderUseCase) (w : World) : Input → World
  | .process c => (c.execute uc w).2
  | .publish c => (publishOutbox c w).2

/-- The id generator's promise: a UUID it has not handed out before. -/
def FreshId (w : World) : Input → Prop
  | .process c => isUuid c.correlationId = true ∧ c.correlationId ∉ w.issued
  | .publish _ => True

/-- Calls one after another, from a fresh world. -/
def machine (uc : ProcessOrderUseCase) : Machine World Input where
  init w := ∃ rules, w = World.fresh rules
  guard := FreshId
  step := step uc

end Processing

/-! ## What a call writes -/

/-- The record is one of this call's results. -/
structure ProcessCall.IsResult (c : ProcessCall) (w : World) (r : ResultRecord) : Prop where
  orderId : r.orderId = c.order.orderId
  correlationId : r.correlationId = c.correlationId
  attemptNumber : r.attemptNumber = c.attemptNumber w

/-- What a call does to the database: nothing, or one result, and after a
    failure perhaps the move to the dead letter. -/
inductive ProcessCall.Writes (c : ProcessCall) (w : World) : Database → Prop
  | nothing : Writes c w w.db
  | result (r : ResultRecord) (db : Database) (hr : c.IsResult w r) (hrec : Recorded r w.db db) :
      Writes c w db
  | deadLettered (r : ResultRecord) (db db' : Database) (hr : c.IsResult w r)
      (hrec : Recorded r w.db db) (hdead : DeadLettered c.deadLetterRecord db db') :
      Writes c w db'

theorem ProcessCall.execute_writes (uc : ProcessOrderUseCase) (c : ProcessCall) (w : World) :
    c.Writes w (c.execute uc w).2.db := by
  have hstep := c.execute_step uc w
  generalize (c.execute uc w).1 = res, (c.execute uc w).2 = w' at hstep ⊢
  cases hstep with
  | evaluationError e hraise => exact .nothing
  | duplicate d hash hdec hdup => exact .nothing
  | noMatch d hash db hdec hdup hmatch hrec hfault => exact .result _ db ⟨rfl, rfl, rfl⟩ hrec
  | noMatchRefused d hash e hdec hdup hmatch hrefused => exact .nothing
  | submits d hash hsub hstep =>
    cases hstep with
    | succeeded db hanswer hrec hfault => exact .result _ db ⟨rfl, rfl, rfl⟩ hrec
    | failureRefused accepted exc e htry hrefused => exact .nothing
    | failed accepted exc db htry hrec hfault hlimit => exact .result _ db ⟨rfl, rfl, rfl⟩ hrec
    | deadLetterRefused accepted exc e db htry hrec hfault hlimit hrefused =>
      exact .result _ db ⟨rfl, rfl, rfl⟩ hrec
    | deadLettered accepted exc db db' htry hrec hfault hlimit hdead hjson =>
      exact .deadLettered _ db db' ⟨rfl, rfl, rfl⟩ hrec hdead

/-! ## The three tables stay in step -/

/-- The event type that goes with an attempt's status. -/
def eventTypeOf : ProcessingStatus → Option EventType
  | .SUCCESS => some .OrderEnrichmentSucceeded
  | .FAILED => some .OrderEnrichmentFailed
  | _ => none

/-- The message is the event of the attempt. -/
def IsEventOf (m : OutboxMessage) (a : ProcessingAttempt) : Prop :=
  m.messageId = messageIdOf a.correlationId a.orderId ∧ eventTypeOf a.status = some m.eventType

/-- The attempt is the latest success of its order. -/
def IsLatestSuccess (db : Database) (a : ProcessingAttempt) : Prop :=
  a ∈ db.attempts ∧ a.status = .SUCCESS ∧
    ∀ a' ∈ db.attempts, a'.orderId = a.orderId → a'.status = .SUCCESS →
      a'.attemptNumber ≤ a.attemptNumber

/-- Attempts, outbox and processed orders agree. -/
structure InStep (db : Database) : Prop where
  attempt_event : ∀ a ∈ db.attempts, ∃ m ∈ db.outbox.rows, IsEventOf m a ∧
    ∀ m' ∈ db.outbox.rows, m'.messageId = messageIdOf a.correlationId a.orderId → m' = m
  event_attempt : ∀ m ∈ db.outbox.rows, m.eventType ≠ .OrderMovedToDeadLetter →
    ∃ a ∈ db.attempts, IsEventOf m a
  processed_attempt : ∀ p ∈ db.processedOrders.rows, ∃ a, IsLatestSuccess db a ∧
    a.orderId = p.orderId ∧ a.correlationId = p.correlationId
  attempt_processed : ∀ a ∈ db.attempts, a.status = .SUCCESS →
    ∃ p ∈ db.processedOrders.rows, p.orderId = a.orderId

/-- No two messages share an id, so the event of an attempt is the only one. -/
theorem exists_unique_event {db : Database} {a : ProcessingAttempt} {m : OutboxMessage}
    (hm : m ∈ db.outbox.rows) (h : IsEventOf m a) :
    ∃ m ∈ db.outbox.rows, IsEventOf m a ∧
      ∀ m' ∈ db.outbox.rows, m'.messageId = messageIdOf a.correlationId a.orderId → m' = m := by
  refine ⟨m, hm, h, ?_⟩
  intro m' hm' hid
  have hkey : m'.messageId = m.messageId := by rw [hid, h.1]
  exact Table.eq_of_key _ hm' hm hkey

theorem isEventOf_record (r : ResultRecord) : IsEventOf r.message r.attempt := by
  refine ⟨rfl, ?_⟩
  unfold ResultRecord.message ResultRecord.attempt
  cases r.success <;> rfl

namespace InStep

theorem fresh (rules : Table EnrichmentRule EnrichmentRule.ruleId) :
    InStep (Database.fresh rules) := by
  constructor <;> intro x hx <;> cases hx

/-- A success under a number that exceeds those of its order is the latest
    one; the latest successes of the other orders stay. -/
theorem latestSuccess_recorded {db db' : Database} {r : ResultRecord} (hrec : Recorded r db db')
    (hnum : ∀ a ∈ db.attempts, a.orderId = r.orderId → a.attemptNumber < r.attemptNumber)
    (hsucc : r.success = true) : IsLatestSuccess db' r.attempt := by
  refine ⟨hrec.mem_attempts.mpr (Or.inr rfl), ?_, ?_⟩
  · simp [ResultRecord.attempt, hsucc]
  · intro a ha ho _
    rcases hrec.mem_attempts.mp ha with hold | rfl
    · have hlt := hnum a hold ho
      show a.attemptNumber ≤ r.attemptNumber
      omega
    · exact le_refl _

theorem latestSuccess_stays {db db' : Database} {r : ResultRecord} (hrec : Recorded r db db')
    {a : ProcessingAttempt} (ha : IsLatestSuccess db a)
    (hne : r.success = true → a.orderId ≠ r.orderId) : IsLatestSuccess db' a := by
  obtain ⟨hin, hs, hmax⟩ := ha
  refine ⟨hrec.mem_attempts.mpr (Or.inl hin), hs, ?_⟩
  intro a' ha' ho hs'
  rcases hrec.mem_attempts.mp ha' with hold | rfl
  · exact hmax a' hold ho hs'
  · -- the new attempt is no success, or one of another order
    cases hsucc : r.success with
    | false => simp [ResultRecord.attempt, hsucc] at hs'
    | true => exact absurd ho.symm (hne hsucc)

/-- A result under a number that exceeds those of its order. -/
theorem preserve_recorded {db db' : Database} (h : InStep db) {r : ResultRecord}
    (hrec : Recorded r db db')
    (hnum : ∀ a ∈ db.attempts, a.orderId = r.orderId → a.attemptNumber < r.attemptNumber) :
    InStep db' := by
  constructor
  · -- every attempt has its event
    intro a ha
    rcases hrec.mem_attempts.mp ha with ha | rfl
    · obtain ⟨m, hm, hev, _⟩ := h.attempt_event a ha
      exact exists_unique_event (hrec.mem_outbox.mpr (Or.inl hm)) hev
    · exact exists_unique_event (hrec.mem_outbox.mpr (Or.inr rfl)) (isEventOf_record r)
  · -- every event has its attempt
    intro m hm htype
    rcases hrec.mem_outbox.mp hm with hm | rfl
    · obtain ⟨a, ha, hev⟩ := h.event_attempt m hm htype
      exact ⟨a, hrec.mem_attempts.mpr (Or.inl ha), hev⟩
    · exact ⟨r.attempt, hrec.mem_attempts.mpr (Or.inr rfl), isEventOf_record r⟩
  · -- every processed order has its latest success
    intro p hp
    rw [hrec.processedOrders] at hp
    cases hsucc : r.success with
    | false =>
      simp only [hsucc, Bool.false_eq_true, if_false] at hp
      obtain ⟨a, hlast, ho, hc⟩ := h.processed_attempt p hp
      exact ⟨a, latestSuccess_stays hrec hlast (by simp [hsucc]), ho, hc⟩
    | true =>
      simp only [hsucc, if_true, Table.mem_upsert] at hp
      rcases hp with rfl | ⟨hp, hne⟩
      · exact ⟨r.attempt, latestSuccess_recorded hrec hnum hsucc, rfl, rfl⟩
      · obtain ⟨a, hlast, ho, hc⟩ := h.processed_attempt p hp
        refine ⟨a, latestSuccess_stays hrec hlast ?_, ho, hc⟩
        intro _
        rw [ho]
        exact hne
  · -- every success has its processed order
    intro a ha hs
    rw [hrec.processedOrders]
    rcases hrec.mem_attempts.mp ha with ha | rfl
    · obtain ⟨p, hp, ho⟩ := h.attempt_processed a ha hs
      cases hsucc : r.success with
      | false => exact ⟨p, by simpa using hp, ho⟩
      | true =>
        -- the row of `p` is still there, or it was overwritten
        simp only [if_true, Table.mem_upsert]
        by_cases hk : p.orderId = r.orderId
        · have horder : r.processed.orderId = a.orderId := by
            rw [← ho, hk]
            rfl
          exact ⟨r.processed, Or.inl rfl, horder⟩
        · exact ⟨p, Or.inr ⟨hp, hk⟩, ho⟩
    · cases hsucc : r.success with
      | false => simp [ResultRecord.attempt, hsucc] at hs
      | true =>
        simp only [if_true, Table.mem_upsert]
        exact ⟨r.processed, Or.inl rfl, rfl⟩

theorem preserve_deadLettered {db db' : Database} (h : InStep db) {r : DeadLetterRecord}
    (hdead : DeadLettered r db db') : InStep db' := by
  constructor
  · intro a ha
    rw [hdead.attempts] at ha
    obtain ⟨m, hm, hev, _⟩ := h.attempt_event a ha
    exact exists_unique_event (hdead.mem_outbox.mpr (Or.inl hm)) hev
  · intro m hm htype
    rw [hdead.attempts]
    rcases hdead.mem_outbox.mp hm with hm | rfl
    · exact h.event_attempt m hm htype
    · -- the new event is exempt by its type
      exact absurd rfl htype
  · unfold IsLatestSuccess
    rw [hdead.processedOrders, hdead.attempts]
    exact h.processed_attempt
  · rw [hdead.processedOrders, hdead.attempts]
    exact h.attempt_processed

theorem preserve_published {db db' : Database} (h : InStep db) {c : PublishCall}
    (hpub : Published c db db') : InStep db' := by
  constructor
  · intro a ha
    rw [hpub.attempts] at ha
    obtain ⟨m, hm, ⟨hid, htype⟩, _⟩ := h.attempt_event a ha
    obtain ⟨m', hm', hid', htype'⟩ := hpub.exists_settled hm
    have hev : IsEventOf m' a := by
      unfold IsEventOf
      rw [hid', htype']
      exact ⟨hid, htype⟩
    exact exists_unique_event hm' hev
  · intro m' hm' hother
    rw [hpub.attempts]
    obtain ⟨m, hm, hid, htype, _⟩ := hpub.exists_source hm'
    rw [htype] at hother
    obtain ⟨a, ha, hid', htype'⟩ := h.event_attempt m hm hother
    have hev : IsEventOf m' a := by
      unfold IsEventOf
      rw [hid, htype]
      exact ⟨hid', htype'⟩
    exact ⟨a, ha, hev⟩
  · unfold IsLatestSuccess
    rw [hpub.processedOrders, hpub.attempts]
    exact h.processed_attempt
  · rw [hpub.processedOrders, hpub.attempts]
    exact h.attempt_processed

theorem preserve_writes {c : ProcessCall} {w : World} {db : Database} (h : InStep w.db)
    (hw : c.Writes w db) : InStep db := by
  -- the call's attempt number was read from the same committed table
  have hnum : ∀ r, c.IsResult w r → ∀ a ∈ w.db.attempts, a.orderId = r.orderId →
      a.attemptNumber < r.attemptNumber := by
    intro r hr a ha ho
    have hlt := lt_getNextAttemptNumber (s := Session.enter w.db) ha
    rw [hr.attemptNumber]
    unfold ProcessCall.attemptNumber
    rw [← hr.orderId, ← ho]
    exact hlt
  cases hw with
  | nothing => exact h
  | result r _ hr hrec => exact h.preserve_recorded hrec (hnum r hr)
  | deadLettered r db₁ _ hr hrec hdead =>
    exact (h.preserve_recorded hrec (hnum r hr)).preserve_deadLettered hdead

theorem preserve_step (uc : ProcessOrderUseCase) {w : World} (i : Processing.Input)
    (h : InStep w.db) : InStep (Processing.step uc w i).db := by
  cases i with
  | process c => exact h.preserve_writes (c.execute_writes uc w)
  | publish c =>
    simp only [Processing.step]
    rcases publishOutbox_cases c w with ⟨e, _, hres⟩ | ⟨db, _, hpub, hres⟩
    · rw [hres]
      exact h
    · rw [hres]
      exact h.preserve_published hpub

end InStep

/-- **Attempts, outbox and processed orders stay in step.** -/
theorem reachable_inStep (uc : ProcessOrderUseCase) {w : World}
    (hw : (Processing.machine uc).Reachable w) : InStep w.db := by
  -- the ids need not be fresh for this: a taken message id is refused by its key
  refine Machine.reachable_induction _ (I := fun w => InStep w.db) ?_ ?_ hw
  · intro w₀ hinit
    obtain ⟨rules, rfl⟩ := hinit
    exact InStep.fresh rules
  · intro w i h _
    exact h.preserve_step uc i

theorem reachable_inStep_sample : InStep
    ((Processing.machine (Sample.useCase 3)).run (World.fresh Sample.rules)
      [.process (Sample.call Sample.accept)]).db := by
  refine reachable_inStep (Sample.useCase 3)
    ⟨World.fresh Sample.rules, [.process (Sample.call Sample.accept)], ⟨_, rfl⟩, ?_, rfl⟩
  intro p hp
  rw [List.mem_singleton.mp hp]
  exact ⟨by decide, by decide⟩

/-! ## Stored ids were handed out -/

/-- Every correlation id that is stored or was sent is one the generator
    handed out. -/
structure IdsIssued (w : World) : Prop where
  uuid : ∀ id ∈ w.issued, isUuid id = true
  attempts : ∀ a ∈ w.db.attempts, a.correlationId ∈ w.issued
  messages : ∀ m ∈ w.db.outbox.rows, ∃ id ∈ w.issued,
    m.messageId = messageIdOf id m.aggregateId ∨ m.messageId = deadLetterMessageIdOf id
  deadLetter : ∀ i ∈ w.db.deadLetter, i.correlationId ∈ w.issued
  submissions : ∀ s ∈ w.submissions, s.correlationId ∈ w.issued

/-- What a call does beside its writes: it takes its id, and it makes at
    most one submission under this id. -/
theorem ProcessCall.execute_issues (uc : ProcessOrderUseCase) (c : ProcessCall) (w : World) :
    (c.execute uc w).2.issued = w.issued ++ [c.correlationId] ∧
      ∃ ss, (c.execute uc w).2.submissions = w.submissions ++ ss ∧
        ∀ s ∈ ss, s.correlationId = c.correlationId := by
  have hstep := c.execute_step uc w
  generalize (c.execute uc w).1 = res, (c.execute uc w).2 = w' at hstep ⊢
  cases hstep with
  | evaluationError e hraise => exact ⟨rfl, [], by simp [World.issue]⟩
  | duplicate d hash hdec hdup => exact ⟨rfl, [], by simp [World.issue]⟩
  | noMatch d hash db hdec hdup hmatch hrec hfault => exact ⟨rfl, [], by simp [World.issue]⟩
  | noMatchRefused d hash e hdec hdup hmatch hrefused => exact ⟨rfl, [], by simp [World.issue]⟩
  | submits d hash hsub hstep =>
    -- every way through the `try` block starts from the world after the submission
    cases hstep <;> exact ⟨rfl, _, rfl, by simp⟩

/-- The submission is that of a decision of this call; it is accepted if
    `submit` returned. -/
structure ProcessCall.IsSubmission (uc : ProcessOrderUseCase) (c : ProcessCall) (s : Submission) :
    Prop where
  orderId : s.orderId = c.order.orderId
  correlationId : s.correlationId = c.correlationId
  accepted : s.accepted = (c.submit s.orderId s.payload s.correlationId).isOk
  decided : ∃ d, evaluate uc.runtime c.order c.rules c.now = .ok d ∧ d.hasMatches = true ∧
    s.payload = c.payload uc d

/-- A call makes at most one submission. -/
theorem ProcessCall.execute_submissions (uc : ProcessOrderUseCase) (c : ProcessCall) (w : World) :
    ∃ ss, (c.execute uc w).2.submissions = w.submissions ++ ss ∧ ss.length ≤ 1 ∧
      ∀ s ∈ ss, c.IsSubmission uc s := by
  have hstep := c.execute_step uc w
  generalize (c.execute uc w).1 = res, (c.execute uc w).2 = w' at hstep ⊢
  have hnone : ∀ w' : World, w'.submissions = w.submissions →
      ∃ ss, w'.submissions = w.submissions ++ ss ∧ ss.length ≤ 1 ∧ ∀ s ∈ ss, c.IsSubmission uc s :=
    fun w' h => ⟨[], h.trans (List.append_nil _).symm, Nat.zero_le 1,
      fun _ hs => absurd hs List.not_mem_nil⟩
  have htried : ∀ {d hash exc accepted}, c.TryRaises uc w d hash exc accepted →
      accepted = (c.answer uc d).isOk := by
    intro d hash exc accepted htry
    cases htry with
    | rejected hanswer => rw [hanswer]; rfl
    | unrecorded hanswer _ => rw [hanswer]; rfl
  cases hstep with
  | evaluationError e hraise => exact hnone _ rfl
  | duplicate d hash hdec hdup => exact hnone _ rfl
  | noMatch d hash db hdec hdup hmatch hrec hfault => exact hnone _ rfl
  | noMatchRefused d hash e hdec hdup hmatch hrefused => exact hnone _ rfl
  | submits d hash hsub hstep =>
    have hone : ∀ (w' : World) (accepted : Bool),
        w'.submissions = (c.submitted uc w d accepted).submissions →
        accepted = (c.answer uc d).isOk →
        ∃ ss, w'.submissions = w.submissions ++ ss ∧ ss.length ≤ 1 ∧
          ∀ s ∈ ss, c.IsSubmission uc s := by
      intro w' accepted h hacc
      refine ⟨_, h, Nat.le_refl 1, ?_⟩
      intro s hs
      rw [List.mem_singleton.mp hs]
      exact ⟨rfl, rfl, hacc, d, hsub.evaluated, hsub.hasMatches, rfl⟩
    cases hstep with
    | succeeded db hanswer hrec hfault => exact hone _ true rfl (by rw [hanswer]; rfl)
    | failureRefused accepted exc e htry hrefused => exact hone _ accepted rfl (htried htry)
    | failed accepted exc db htry hrec hfault hlimit => exact hone _ accepted rfl (htried htry)
    | deadLetterRefused accepted exc e db htry hrec hfault hlimit hrefused =>
      exact hone _ accepted rfl (htried htry)
    | deadLettered accepted exc db db' htry hrec hfault hlimit hdead hjson =>
      exact hone _ accepted rfl (htried htry)

/-- The correlation ids that are stored are among `ids`. -/
structure StoredUnder (ids : List String) (db : Database) : Prop where
  attempts : ∀ a ∈ db.attempts, a.correlationId ∈ ids
  messages : ∀ m ∈ db.outbox.rows, ∃ id ∈ ids,
    m.messageId = messageIdOf id m.aggregateId ∨ m.messageId = deadLetterMessageIdOf id
  deadLetter : ∀ i ∈ db.deadLetter, i.correlationId ∈ ids

namespace StoredUnder

theorem mono {ids ids' : List String} {db : Database} (h : StoredUnder ids db)
    (hsub : ∀ id ∈ ids, id ∈ ids') : StoredUnder ids' db := by
  refine ⟨fun a ha => hsub _ (h.attempts a ha), ?_, fun i hi => hsub _ (h.deadLetter i hi)⟩
  intro m hm
  obtain ⟨id, hid, hform⟩ := h.messages m hm
  exact ⟨id, hsub id hid, hform⟩

theorem preserve_recorded {ids : List String} {db db' : Database} (h : StoredUnder ids db)
    {r : ResultRecord} (hrec : Recorded r db db') (hid : r.correlationId ∈ ids) :
    StoredUnder ids db' := by
  constructor
  · intro a ha
    rcases hrec.mem_attempts.mp ha with ha | rfl
    · exact h.attempts a ha
    · exact hid
  · intro m hm
    rcases hrec.mem_outbox.mp hm with hm | rfl
    · exact h.messages m hm
    · exact ⟨r.correlationId, hid, Or.inl rfl⟩
  · intro i hi
    rw [hrec.deadLetter] at hi
    exact h.deadLetter i hi

theorem preserve_deadLettered {ids : List String} {db db' : Database} (h : StoredUnder ids db)
    {r : DeadLetterRecord} (hdead : DeadLettered r db db') (hid : r.correlationId ∈ ids) :
    StoredUnder ids db' := by
  constructor
  · intro a ha
    rw [hdead.attempts] at ha
    exact h.attempts a ha
  · intro m hm
    rcases hdead.mem_outbox.mp hm with hm | rfl
    · exact h.messages m hm
    · exact ⟨r.correlationId, hid, Or.inr rfl⟩
  · intro i hi
    rcases hdead.mem_deadLetter.mp hi with hi | rfl
    · exact h.deadLetter i hi
    · exact hid

theorem preserve_published {ids : List String} {db db' : Database} (h : StoredUnder ids db)
    {c : PublishCall} (hpub : Published c db db') : StoredUnder ids db' := by
  constructor
  · rw [hpub.attempts]
    exact h.attempts
  · intro m' hm'
    obtain ⟨m, hm, hid, _, horder⟩ := hpub.exists_source hm'
    rw [hid, horder]
    exact h.messages m hm
  · rw [hpub.deadLetter]
    exact h.deadLetter

/-- A call stores its own id and no other. -/
theorem preserve_writes {ids : List String} {c : ProcessCall} {w : World} {db : Database}
    (h : StoredUnder ids w.db) (hw : c.Writes w db) (hid : c.correlationId ∈ ids) :
    StoredUnder ids db := by
  have hown : ∀ r, c.IsResult w r → r.correlationId ∈ ids := by
    intro r hr
    rw [hr.correlationId]
    exact hid
  cases hw with
  | nothing => exact h
  | result r _ hr hrec => exact h.preserve_recorded hrec (hown r hr)
  | deadLettered r db₁ _ hr hrec hdead =>
    have hrecorded := h.preserve_recorded hrec (hown r hr)
    exact hrecorded.preserve_deadLettered hdead hid

end StoredUnder

namespace IdsIssued

theorem fresh (rules : Table EnrichmentRule EnrichmentRule.ruleId) :
    IdsIssued (World.fresh rules) := by
  constructor <;> intro x hx <;> cases hx

theorem stored {w : World} (h : IdsIssued w) : StoredUnder w.issued w.db :=
  ⟨h.attempts, h.messages, h.deadLetter⟩

/-- The message id of a new call is free. -/
theorem messageId_free {w : World} (h : IdsIssued w) {id : String} (huuid : isUuid id = true)
    (hnew : id ∉ w.issued) (orderId : String) :
    w.db.outbox.find? (messageIdOf id orderId) = none := by
  rw [Table.find?_eq_none_iff]
  intro m hm hid
  -- the event of a result determines its id, and a dead-letter event has another form
  obtain ⟨id', hissued, hres | hdead⟩ := h.messages m hm
  · have hform : messageIdOf id orderId = messageIdOf id' m.aggregateId := by rw [← hid, hres]
    have heq : id = id' := messageIdOf_inj huuid (h.uuid id' hissued) hform
    rw [← heq] at hissued
    exact hnew hissued
  · have hform : messageIdOf id orderId = deadLetterMessageIdOf id' := by rw [← hid, hdead]
    exact messageIdOf_ne_deadLetter huuid hform

/-- A call under a new id. -/
theorem preserve_process {uc : ProcessOrderUseCase} {c : ProcessCall} {w : World}
    (h : IdsIssued w) (huuid : isUuid c.correlationId = true) : IdsIssued (c.execute uc w).2 := by
  obtain ⟨hissued, ss, hsubs, hss⟩ := c.execute_issues uc w
  have hwrites := c.execute_writes uc w
  generalize (c.execute uc w).2 = w' at hissued hsubs hwrites ⊢
  have hold : ∀ id ∈ w.issued, id ∈ w'.issued := by
    intro id hid
    rw [hissued]
    exact List.mem_append_left _ hid
  have hnew : c.correlationId ∈ w'.issued := by
    rw [hissued]
    exact List.mem_append_right _ (List.mem_singleton.mpr rfl)
  have hstored : StoredUnder w'.issued w'.db := (h.stored.mono hold).preserve_writes hwrites hnew
  refine ⟨?_, hstored.attempts, hstored.messages, hstored.deadLetter, ?_⟩
  · intro id hid
    rw [hissued, List.mem_append, List.mem_singleton] at hid
    rcases hid with hid | rfl
    · exact h.uuid id hid
    · exact huuid
  · intro s hs
    rw [hsubs, List.mem_append] at hs
    rcases hs with hs | hs
    · exact hold _ (h.submissions s hs)
    · rw [hss s hs]
      exact hnew

theorem preserve_publish {c : PublishCall} {w : World} (h : IdsIssued w) :
    IdsIssued (publishOutbox c w).2 := by
  rcases publishOutbox_cases c w with ⟨e, _, hres⟩ | ⟨db, _, hpub, hres⟩
  · rw [hres]
    exact ⟨h.uuid, h.attempts, h.messages, h.deadLetter, h.submissions⟩
  · rw [hres]
    have hstored := h.stored.preserve_published hpub
    exact ⟨h.uuid, hstored.attempts, hstored.messages, hstored.deadLetter, h.submissions⟩

theorem preserve_step (uc : ProcessOrderUseCase) {w : World} {i : Processing.Input}
    (h : IdsIssued w) (hfresh : Processing.FreshId w i) : IdsIssued (Processing.step uc w i) := by
  cases i with
  | process c => exact h.preserve_process hfresh.1
  | publish c => exact h.preserve_publish

end IdsIssued

end RulesEnrichment
