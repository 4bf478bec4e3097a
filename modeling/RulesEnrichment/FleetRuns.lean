import RulesEnrichment.Fleet

/-! # Runs of a fleet

    What a process relies on between two of its steps, and that it keeps to
    it: nobody else uses its correlation id, what it has read of the
    attempts only grows, and a row it has seen stays.

    * `reachable_valid`: the store of a fleet, whoever is killed. -/

namespace RulesEnrichment

open Python StepMachine UnitOfWork KeyedTable WorkerPool

/-! ## Sessions that are out of date -/

/-- The statement for a processed order was chosen when its row was read;
    rows are never deleted, so an `UPDATE` still finds it, and an `INSERT`
    that comes too late is refused. -/
theorem apply_save_processed_late {db₀ db : Database} {p : ProcessedOrder} (ws : List Write)
    (hrow : db₀.processedOrders.find? p.orderId ≠ none → db.processedOrders.find? p.orderId ≠ none) :
    ∃ x, ProcessedOrderRepository.save ⟨db₀, ws⟩ p = ⟨db₀, ws ++ [x]⟩ ∧
      ∀ db', x.apply db = .ok db' →
        db' = { db with processedOrders := db.processedOrders.upsert p } := by
  unfold ProcessedOrderRepository.save ProcessedOrderRepository.getByOrderId
  cases hf : db₀.processedOrders.find? p.orderId with
  | none =>
    refine ⟨.insertProcessed p, rfl, ?_⟩
    intro db' h
    cases hi : db.processedOrders.insert? p with
    | none => simp [Write.apply, hi] at h
    | some t =>
      simp only [Write.apply, hi, Except.ok.injEq] at h
      rw [← h, Table.upsert_of_insert? hi]
  | some p' =>
    refine ⟨.updateProcessed p, rfl, ?_⟩
    intro db' h
    have hne := hrow (by rw [hf]; exact Option.some_ne_none p')
    simp only [Write.apply, Except.ok.injEq] at h
    rw [← h, Table.upsert_of_find? hne]

/-- The commit of a record whose session was opened on `db₀`. -/
theorem commit_late_cases (fault : Option PyErr) (r : ResultRecord) {db₀ db : Database}
    (hrow : db₀.processedOrders.find? r.orderId ≠ none → db.processedOrders.find? r.orderId ≠ none) :
    (∃ e, DbSession.commit ⟨db, (persistSession r db₀).writes⟩ fault db = (.error e, db)) ∨
    (∃ db', DbSession.commit ⟨db, (persistSession r db₀).writes⟩ fault db = (.ok (), db') ∧
      Recorded r db db') := by
  unfold DbSession.commit
  rcases UnitOfWork.commit_cases Write.apply fault (persistSession r db₀).writes db with
    ⟨e, he⟩ | ⟨db', hc, hok, _⟩
  · exact Or.inl ⟨e, he⟩
  · refine Or.inr ⟨db', hc, ?_⟩
    let db₁ : Database := { db with attempts := db.attempts ++ [r.attempt] }
    -- the last statement inserts the message
    have hlast : ∀ db₂ : Database, applyAll Write.apply [.insertOutbox r.message] db₂ = .ok db' →
        ∃ t, db₂.outbox.insert? r.message = some t ∧ db' = { db₂ with outbox := t } := by
      intro db₂ h
      cases hm : (Write.insertOutbox r.message).apply db₂ with
      | error e => simp [applyAll, hm] at h
      | ok db₃ =>
        rw [applyAll_cons_ok Write.apply hm, applyAll_nil] at h
        cases h
        obtain ⟨_, t, ht, hdb⟩ := apply_insertOutbox_ok_iff.mp hm
        exact ⟨t, ht, hdb⟩
    cases hs : r.success with
    | false =>
      have hwrites : (persistSession r db₀).writes =
          [.insertAttempt r.attempt, .insertOutbox r.message] := by
        simp [persistSession, hs, ProcessingAttemptRepository.save, OutboxRepository.enqueue]
      rw [hwrites, applyAll_cons_ok Write.apply (applyWrite_insertAttempt r.attempt db)] at hok
      obtain ⟨t, ht, rfl⟩ := hlast db₁ hok
      exact ⟨rfl, by simp [hs, db₁], Table.rows_of_insert? ht, Table.find?_of_insert? ht, rfl, rfl⟩
    | true =>
      obtain ⟨x, hx, happly⟩ : ∃ x, ProcessedOrderRepository.save ⟨db₀, [.insertAttempt r.attempt]⟩
          r.processed = ⟨db₀, [.insertAttempt r.attempt] ++ [x]⟩ ∧ ∀ db', x.apply db₁ = .ok db' →
            db' = { db₁ with processedOrders := db₁.processedOrders.upsert r.processed } :=
        apply_save_processed_late _ hrow
      have hwrites : (persistSession r db₀).writes =
          [.insertAttempt r.attempt, x, .insertOutbox r.message] := by
        have hsave : ProcessedOrderRepository.save
            (ProcessingAttemptRepository.save (Session.enter db₀) r.attempt) r.processed =
              ⟨db₀, [.insertAttempt r.attempt, x]⟩ := hx
        simp [persistSession, hs, hsave, OutboxRepository.enqueue]
      rw [hwrites, applyAll_cons_ok Write.apply (applyWrite_insertAttempt r.attempt db)] at hok
      cases hxa : x.apply db₁ with
      | error e =>
        have hxa' : x.apply { db with attempts := db.attempts ++ [r.attempt] } = .error e := hxa
        simp [applyAll, hxa'] at hok
      | ok db₂ =>
        rw [applyAll_cons_ok Write.apply hxa] at hok
        obtain rfl := happly db₂ hxa
        obtain ⟨t, ht, rfl⟩ := hlast _ hok
        exact ⟨rfl, by simp [hs, db₁], Table.rows_of_insert? ht, Table.find?_of_insert? ht, rfl,
          rfl⟩

namespace Fleet

/-! ## What a process knows -/

/-- The call has not moved its order to the dead letters. -/
def Alive (c : ProcessCall) (w : World) : Prop :=
  ∀ i ∈ w.db.deadLetter, i.correlationId ≠ c.correlationId

/-- Nothing is stored yet under the id of the call, and `n` is free to
    follow the attempts of its order. -/
structure Pending (c : ProcessCall) (w : World) (n : Nat) : Prop where
  issued : c.correlationId ∈ w.issued
  unrecorded : ∀ a ∈ w.db.attempts, a.correlationId ≠ c.correlationId
  alive : Alive c w
  number : Follows w.db c.order.orderId n

def Unsent (c : ProcessCall) (w : World) : Prop :=
  ∀ x ∈ w.submissions, x.correlationId ≠ c.correlationId

def SentFor (c : ProcessCall) (w : World) : Prop :=
  ∃ x ∈ w.submissions, x.correlationId = c.correlationId ∧ x.orderId = c.order.orderId

/-- What the call has submitted before it makes a record. -/
def Covered (c : ProcessCall) (w : World) : Purpose → Prop
  | .noMatch => Unsent c w
  | .success => AcceptedFor w c.correlationId c.order.orderId
  | .failure _ => SentFor c w

/-- A record is to be made. -/
structure ToRecord (uc : ProcessOrderUseCase) (c : ProcessCall) (w : World) (r : ResultRecord)
    (purpose : Purpose) : Prop where
  pending : Pending c w r.attemptNumber
  record : ∃ sent, IsRecord uc c r purpose sent
  covered : Covered c w purpose

/-- What a call relies on in each phase. -/
def KnowsCall (uc : ProcessOrderUseCase) (c : ProcessCall) (w : World) : DaemonPhase → Prop
  -- a call that has started has its number
  | .starting => False
  | .numbered n => Pending c w n ∧ Unsent c w
  | .submitting n hash d => c.Decides uc d hash ∧ Pending c w n ∧ Unsent c w
  | .recording r purpose => ToRecord uc c w r purpose
  | .committing r purpose writes => ToRecord uc c w r purpose ∧
    ∃ db, writes = (persistSession r db).writes ∧
      (db.processedOrders.find? r.orderId ≠ none → w.db.processedOrders.find? r.orderId ≠ none)
  | .givingUp _ => c.correlationId ∈ w.issued ∧ Alive c w ∧
    FailedUnder w.db c.correlationId c.order.orderId
  | .finished _ => True

/-- What an execution relies on that has given the messages `sent` to the
    sink. -/
structure KnowsOutbox (c : PublishCall) (p : Publisher) (w : World) (sent : List OutboxMessage) :
    Prop where
  hasSent : HasSent c p sent
  nodup : (p.messages.map (·.messageId)).Nodup
  known : ∀ m ∈ p.messages, w.db.statusOf m.messageId ≠ none
  delivered : ∀ m ∈ sent, c.delivery m ∈ w.deliveries

def Knows : Work → World → Prop
  | .processing uc c phase, w => KnowsCall uc c w phase
  | .publishing c p, w => ∃ sent, KnowsOutbox c p w sent

/-- The correlation id of a call is its own until it is finished. -/
def owns : Work → Set String
  | .processing _ _ (.finished _) => ∅
  | .processing _ c _ => {c.correlationId}
  | .publishing _ _ => ∅

def contract : Contract World Work String := ⟨Valid, Knows, owns, Does⟩

theorem Knows.issued {k : Work} {w : World} (h : Knows k w) {id : String} (hid : id ∈ owns k) :
    id ∈ w.issued := by
  cases k with
  | publishing c p => cases hid
  | processing uc c phase =>
    cases phase with
    | starting => exact h.elim
    | numbered n => exact (Set.mem_singleton_iff.mp hid) ▸ h.1.issued
    | submitting n hash d => exact (Set.mem_singleton_iff.mp hid) ▸ h.2.1.issued
    | recording r purpose => exact (Set.mem_singleton_iff.mp hid) ▸ h.pending.issued
    | committing r purpose writes => exact (Set.mem_singleton_iff.mp hid) ▸ h.1.pending.issued
    | givingUp exc => exact (Set.mem_singleton_iff.mp hid) ▸ h.1
    | finished result => cases hid

/-! ## Others do not disturb it -/

section stable

variable {uc : ProcessOrderUseCase} {c : ProcessCall} {own : Set String} {w w' : World}

theorem Alive.stable (hf : Frame own w w') (hown : c.correlationId ∉ own) (h : Alive c w) :
    Alive c w' := by
  intro i hi hid
  exact h i (hf.deadLetter_of_not_own hi (hid ▸ hown)) hid

theorem Pending.stable (hf : Frame own w w') (hown : c.correlationId ∉ own) {n : Nat}
    (h : Pending c w n) : Pending c w' n := by
  refine ⟨hf.issued _ h.issued, ?_, h.alive.stable hf hown, hf.follows h.number⟩
  intro a ha hid
  exact h.unrecorded a (hf.attempts_of_not_own ha (hid ▸ hown)) hid

theorem Unsent.stable (hf : Frame own w w') (hown : c.correlationId ∉ own) (h : Unsent c w) :
    Unsent c w' := by
  intro x hx hid
  exact h x (hf.submissions_of_not_own hx (hid ▸ hown)) hid

theorem Covered.stable (hf : Frame own w w') (hown : c.correlationId ∉ own) {purpose : Purpose}
    (h : Covered c w purpose) : Covered c w' purpose := by
  cases purpose with
  | noMatch => exact Unsent.stable hf hown h
  | success =>
    obtain ⟨x, hx, hfacts⟩ := h
    exact ⟨x, hf.mem_submissions hx, hfacts⟩
  | failure exc =>
    obtain ⟨x, hx, hfacts⟩ := h
    exact ⟨x, hf.mem_submissions hx, hfacts⟩

theorem ToRecord.stable (hf : Frame own w w') (hown : c.correlationId ∉ own) {r : ResultRecord}
    {purpose : Purpose} (h : ToRecord uc c w r purpose) : ToRecord uc c w' r purpose :=
  ⟨h.pending.stable hf hown, h.record, h.covered.stable hf hown⟩

theorem Knows.stable {k : Work} (hf : Frame own w w') (hapart : Disjoint own (owns k))
    (h : Knows k w) : Knows k w' := by
  cases k with
  | publishing c p =>
    obtain ⟨sent, h⟩ := h
    exact ⟨sent, h.hasSent, h.nodup, fun m hm => hf.messages _ (h.known m hm),
      fun m hm => hf.deliveries _ (h.delivered m hm)⟩
  | processing uc c phase =>
    have hown : owns (.processing uc c phase) = {c.correlationId} → c.correlationId ∉ own := by
      intro howns hin
      rw [howns] at hapart
      exact Set.disjoint_right.mp hapart rfl hin
    cases phase with
    | starting => exact h.elim
    | numbered n => exact ⟨h.1.stable hf (hown rfl), h.2.stable hf (hown rfl)⟩
    | submitting n hash d =>
      exact ⟨h.1, h.2.1.stable hf (hown rfl), h.2.2.stable hf (hown rfl)⟩
    | recording r purpose => exact ToRecord.stable hf (hown rfl) h
    | committing r purpose writes =>
      obtain ⟨hrecord, db, hwrites, hrow⟩ := h
      exact ⟨hrecord.stable hf (hown rfl), db, hwrites, fun hne => hf.processed _ (hrow hne)⟩
    | givingUp exc => exact ⟨hf.issued _ h.1, h.2.1.stable hf (hown rfl), hf.failedUnder h.2.2⟩
    | finished result => trivial

end stable

/-! ## The steps of a call -/

section call

variable {uc : ProcessOrderUseCase} {c : ProcessCall} {own : Set String} {w : World}

/-- The next number of an order follows its attempts. -/
theorem follows_attemptNumber
    (h : ∀ a ∈ w.db.attempts, Follows w.db a.orderId a.attemptNumber) :
    Follows w.db c.order.orderId (c.attemptNumber w) := by
  unfold ProcessCall.attemptNumber ProcessingAttemptRepository.getNextAttemptNumber
  split
  · exact ⟨Nat.le_refl 1, fun m hm hlt => absurd hlt (Nat.not_lt.mpr hm)⟩
  · next current hmax =>
    have hmem := (List.max?_eq_some_iff.mp hmax).1
    obtain ⟨a, ha, hnumber⟩ := List.mem_map.mp hmem
    obtain ⟨ha, horder⟩ := List.mem_filter.mp ha
    have horder : a.orderId = c.order.orderId := by simpa using horder
    have hlast := h a ha
    rw [horder, hnumber] at hlast
    rw [if_neg (Nat.pos_iff_ne_zero.mp hlast.1)]
    refine ⟨Nat.le_add_left 1 current, ?_⟩
    intro m hm hlt
    rcases Nat.lt_succ_iff_lt_or_eq.mp hlt with hlt | rfl
    · exact hlast.2 m hm hlt
    · exact ⟨a, ha, horder, hnumber⟩

/-- A call gets an id that nothing has. -/
theorem call_starting (uc : ProcessOrderUseCase) (hv : Valid w) (hpromise : Promise w (.process uc c)) :
    Does {c.correlationId} w (c.step uc .starting w).2 ∧
      KnowsCall uc c (c.step uc .starting w).2 (c.step uc .starting w).1 := by
  obtain ⟨huuid, hnew⟩ := hpromise
  refine ⟨.issues c.correlationId rfl huuid hnew, ?_, ?_⟩
  · refine ⟨List.mem_append_right _ (List.mem_singleton.mpr rfl), ?_, ?_,
      follows_attemptNumber hv.numbers⟩
    · intro a ha hid
      exact hnew (hid ▸ hv.ids.attempts a ha)
    · intro i hi hid
      exact hnew (hid ▸ hv.ids.deadLetter i hi)
  · intro x hx hid
    exact hnew (hid ▸ hv.ids.submissions x hx)

theorem call_numbered {n : Nat} (h : Pending c w n ∧ Unsent c w) :
    Does own w (c.step uc (.numbered n) w).2 ∧
      KnowsCall uc c (c.step uc (.numbered n) w).2 (c.step uc (.numbered n) w).1 := by
  unfold ProcessCall.step
  cases heval : evaluate uc.runtime c.order c.rules c.now with
  | error e => exact ⟨.nothing, trivial⟩
  | ok d =>
    obtain ⟨hash, hhash⟩ := computeHash_ok uc.runtime c.order d.enrichedFields
    simp only [hhash]
    cases hdup : c.isDuplicate w hash with
    | true => exact ⟨.nothing, trivial⟩
    | false =>
      cases hmatch : d.hasMatches with
      | true => exact ⟨.nothing, ⟨heval, hhash⟩, h⟩
      | false =>
        exact ⟨.nothing, h.1, ⟨[], .noMatch n hash d ⟨heval, hhash⟩⟩, h.2⟩

/-- What the call submits is the only submission under its id. -/
theorem call_submitting {n : Nat} {hash : String} {d : EnrichmentDecision}
    (hdec : c.Decides uc d hash) (hp : Pending c w n) (hu : Unsent c w) :
    Does {c.correlationId} w (c.step uc (.submitting n hash d) w).2 ∧
      KnowsCall uc c (c.step uc (.submitting n hash d) w).2
        (c.step uc (.submitting n hash d) w).1 := by
  let x (accepted : Bool) : Submission :=
    ⟨c.order.orderId, c.payload uc d, c.correlationId, accepted⟩
  have hdoes : ∀ accepted, Does {c.correlationId} w
      { w with submissions := w.submissions ++ [x accepted] } :=
    fun accepted => .submits (x accepted) rfl hp.issued hu
  have hin : ∀ accepted, x accepted ∈ w.submissions ++ [x accepted] :=
    fun accepted => List.mem_append_right _ (List.mem_singleton.mpr rfl)
  have hpending : ∀ accepted, Pending c { w with submissions := w.submissions ++ [x accepted] } n :=
    fun accepted => ⟨hp.issued, hp.unrecorded, hp.alive, hp.number⟩
  simp only [ProcessCall.step, ProcessCall.submitEnrichment]
  cases hanswer : c.answer uc d with
  | error exc =>
    exact ⟨hdoes false, hpending false, ⟨_, .failure n hash exc (x false)⟩, x false, hin false, rfl,
      rfl⟩
  | ok u =>
    exact ⟨hdoes true, hpending true, ⟨_, .success n hash d (x true) hdec⟩, x true, hin true, rfl,
      rfl, rfl⟩

/-- What was submitted is behind the record. -/
theorem ToRecord.backed {r : ResultRecord} {purpose : Purpose} (h : ToRecord uc c w r purpose) :
    Backed w r ∧ r.correlationId = c.correlationId ∧ r.orderId = c.order.orderId := by
  obtain ⟨_, ⟨sent, hr⟩, hcovered⟩ := h
  cases hr with
  | noMatch n hash d hdec => exact ⟨Or.inr rfl, rfl, rfl⟩
  | success n hash d x hdec => exact ⟨Or.inl hcovered, rfl, rfl⟩
  | failure n hash exc x => exact ⟨hcovered, rfl, rfl⟩

/-- The commit of a record: it is the only attempt under its id. -/
theorem call_committing {r : ResultRecord} {purpose : Purpose} {db : Database}
    (h : ToRecord uc c w r purpose)
    (hrow : db.processedOrders.find? r.orderId ≠ none →
      w.db.processedOrders.find? r.orderId ≠ none) :
    let p : DaemonPhase := .committing r purpose (persistSession r db).writes
    Does {c.correlationId} w (c.step uc p w).2 ∧
      KnowsCall uc c (c.step uc p w).2 (c.step uc p w).1 := by
  intro p
  obtain ⟨hbacked, hid, horder⟩ := h.backed
  obtain ⟨hpending, ⟨sent, hr⟩, hcovered⟩ := h
  unfold p ProcessCall.step World.transact
  rcases commit_late_cases (c.faultOf purpose) r hrow with ⟨e, he⟩ | ⟨db', hok, hrec⟩
  · simp only [he]
    refine ⟨.nothing, ?_⟩
    cases hr with
    | noMatch n hash d hdec => trivial
    | failure n hash exc x => trivial
    | success n hash d x hdec =>
      -- the call goes on to record a failure of what was accepted
      obtain ⟨y, hy, _, hfacts⟩ := hcovered
      exact ⟨hpending, ⟨_, .failure n hash e x⟩, y, hy, hfacts⟩
  · simp only [hok]
    have hissued : r.correlationId ∈ w.issued := by
      rw [hid]
      exact hpending.issued
    refine ⟨.records r db' hid hrec hissued ?_ ?_ hbacked, ?_⟩
    · rw [hid]
      exact hpending.unrecorded
    · rw [horder]
      exact hpending.number
    · cases hr with
      | noMatch n hash d hdec => trivial
      | success n hash d x hdec => trivial
      | failure n hash exc x =>
        simp only [ProcessCall.afterCommit]
        split
        · refine ⟨hpending.issued, ?_, _, hrec.mem_attempts.mpr (Or.inr rfl), rfl, rfl, rfl⟩
          show ∀ i ∈ db'.deadLetter, _
          rw [hrec.deadLetter]
          exact hpending.alive
        · trivial

/-- The move to the dead letters. -/
theorem call_givingUp {exc : PyErr} (hissued : c.correlationId ∈ w.issued) (halive : Alive c w)
    (hfailed : FailedUnder w.db c.correlationId c.order.orderId) :
    Does {c.correlationId} w (c.step uc (.givingUp exc) w).2 ∧
      KnowsCall uc c (c.step uc (.givingUp exc) w).2 (c.step uc (.givingUp exc) w).1 := by
  unfold ProcessCall.step World.transact
  rcases moveToDeadLetter_cases c.faults.deadLetter c.deadLetterRecord w.db with
    ⟨e, he⟩ | ⟨db', hok, hdead, _⟩
  · simp only [he]
    exact ⟨.nothing, trivial⟩
  · simp only [hok]
    exact ⟨.givesUp c.deadLetterRecord db' rfl hdead halive hissued hfailed, trivial⟩

/-- **Every step** of a call does what it may, and it knows what it then
    needs. -/
theorem call_step {phase : DaemonPhase} (h : KnowsCall uc c w phase) :
    Does (owns (.processing uc c phase)) w (c.step uc phase w).2 ∧
      KnowsCall uc c (c.step uc phase w).2 (c.step uc phase w).1 := by
  cases phase with
  | starting => exact h.elim
  | numbered n => exact call_numbered h
  | submitting n hash d => exact call_submitting h.1 h.2.1 h.2.2
  | recording r purpose => exact ⟨.nothing, h, w.db, rfl, fun hne => hne⟩
  | committing r purpose writes =>
    obtain ⟨hrecord, db, rfl, hrow⟩ := h
    exact call_committing hrecord hrow
  | givingUp exc => exact call_givingUp h.1 h.2.1 h.2.2
  | finished result => exact ⟨.nothing, trivial⟩

end call

/-! ## What a step of a call leaves alone -/

section frame

variable {uc : ProcessOrderUseCase} {c : ProcessCall} {w : World}

/-- The evaluation and the check for duplicates only read. -/
theorem numbered_step (n : Nat) : (c.step uc (.numbered n) w).2 = w := by
  unfold ProcessCall.step
  cases evaluate uc.runtime c.order c.rules c.now with
  | error e => rfl
  | ok d =>
    obtain ⟨hash, hhash⟩ := computeHash_ok uc.runtime c.order d.enrichedFields
    simp only [hhash]
    split
    · rfl
    · split <;> rfl

/-- Only `submitting` submits. -/
theorem submissions_step {phase : DaemonPhase} (h : ∀ n hash d, phase ≠ .submitting n hash d) :
    (c.step uc phase w).2.submissions = w.submissions := by
  cases phase with
  | submitting n hash d => exact absurd rfl (h n hash d)
  | starting => rfl
  | numbered n => rw [numbered_step]
  | recording r purpose => rfl
  | committing r purpose writes => rfl
  | givingUp exc =>
    unfold ProcessCall.step World.transact
    cases moveToDeadLetter c.faults.deadLetter c.deadLetterRecord w.db with
    | mk res db => cases res <;> rfl
  | finished result => rfl

/-- Only `committing` stores attempts. -/
theorem attempts_step {phase : DaemonPhase}
    (h : ∀ r purpose writes, phase ≠ .committing r purpose writes) :
    (c.step uc phase w).2.db.attempts = w.db.attempts := by
  cases phase with
  | committing r purpose writes => exact absurd rfl (h r purpose writes)
  | starting => rfl
  | numbered n => rw [numbered_step]
  | submitting n hash d =>
    simp only [ProcessCall.step, ProcessCall.submitEnrichment]
    cases c.answer uc d <;> rfl
  | recording r purpose => rfl
  | givingUp exc =>
    unfold ProcessCall.step World.transact
    rcases moveToDeadLetter_cases c.faults.deadLetter c.deadLetterRecord w.db with
      ⟨e, he⟩ | ⟨db', hok, hdead, _⟩
    · simp only [he]
    · simp only [hok]
      exact hdead.attempts
  | finished result => rfl

/-- A call delivers nothing. -/
theorem deliveries_step (phase : DaemonPhase) : (c.step uc phase w).2.deliveries = w.deliveries := by
  cases phase with
  | starting => rfl
  | numbered n => rw [numbered_step]
  | submitting n hash d =>
    simp only [ProcessCall.step, ProcessCall.submitEnrichment]
    cases c.answer uc d <;> rfl
  | recording r purpose => rfl
  | committing r purpose writes => rfl
  | givingUp exc =>
    unfold ProcessCall.step World.transact
    cases moveToDeadLetter c.faults.deadLetter c.deadLetterRecord w.db with
    | mk res db => cases res <;> rfl
  | finished result => rfl

end frame

/-! ## The steps of an execution -/

namespace Remarked

theorem refl (db : Database) : Remarked db db :=
  ⟨rfl, rfl, rfl, id, by rw [List.map_id], fun _ => ⟨rfl, rfl, rfl, rfl⟩⟩

theorem trans {db db' db'' : Database} (h : Remarked db db') (h' : Remarked db' db'') :
    Remarked db db'' := by
  obtain ⟨f, hrows, hf⟩ := h.outbox
  obtain ⟨g, hrows', hg⟩ := h'.outbox
  refine ⟨h'.attempts.trans h.attempts, h'.processedOrders.trans h.processedOrders,
    h'.deadLetter.trans h.deadLetter, g ∘ f, ?_, ?_⟩
  · rw [hrows', hrows, List.map_map]
  · intro m
    obtain ⟨hid, htype, hagg, hpayload⟩ := hf m
    obtain ⟨hid', htype', hagg', hpayload'⟩ := hg (f m)
    exact ⟨hid'.trans hid, htype'.trans htype, hagg'.trans hagg, hpayload'.trans hpayload⟩

theorem mark (c : PublishCall) (m : OutboxMessage) {db db' : Database}
    (h : (c.mark m).apply db = .ok db') : Remarked db db' := by
  unfold PublishCall.mark at h
  split at h
  · obtain rfl := Except.ok.inj h
    refine ⟨rfl, rfl, rfl, _, rfl, fun x => ?_⟩
    split <;> exact ⟨rfl, rfl, rfl, rfl⟩
  · obtain rfl := Except.ok.inj h
    refine ⟨rfl, rfl, rfl, _, rfl, fun x => ?_⟩
    split <;> exact ⟨rfl, rfl, rfl, rfl⟩

theorem marks (c : PublishCall) {ms : List OutboxMessage} {db db' : Database}
    (h : applyAll Write.apply (ms.map c.mark) db = .ok db') : Remarked db db' := by
  induction ms generalizing db with
  | nil =>
    rw [← Except.ok.inj h]
    exact refl db
  | cons m ms ih =>
    cases hm : (c.mark m).apply db with
    | error e => simp [applyAll, hm] at h
    | ok db₁ =>
      rw [List.map_cons, applyAll_cons_ok Write.apply hm] at h
      exact (mark c m hm).trans (ih h)

/-- An execution changes nothing but marks. -/
theorem step {c : PublishCall} {p : Publisher} {sent : List OutboxMessage} (h : HasSent c p sent)
    (w : World) : Remarked w.db (c.step p w).2.db := by
  cases h with
  | listing => exact refl w.db
  | publishing sent rest =>
    cases rest with
    | cons m rest =>
      cases hsink : c.sink m with
      | ok u => simpa only [PublishCall.step, hsink] using refl w.db
      | error e => simpa only [PublishCall.step, hsink] using refl w.db
    | nil =>
      simp only [PublishCall.step, DbSession.commit]
      rcases UnitOfWork.commit_cases Write.apply c.commitFault (sent.map c.mark) w.db with
        ⟨e, he⟩ | ⟨db', hc, hok, _⟩
      · simp only [he]
        exact refl w.db
      · simp only [hc]
        exact marks c hok
  | marking sent rest m =>
    cases hacc : c.accepts m with
    | true => simpa only [PublishCall.step, hacc] using refl w.db
    | false => simpa only [PublishCall.step, hacc] using refl w.db
  | finished sent result => exact refl w.db

end Remarked

theorem outbox_step {c : PublishCall} {p : Publisher} {own : Set String} {w : World}
    {sent : List OutboxMessage} (h : KnowsOutbox c p w sent) :
    Does own w (c.step p w).2 ∧
      ∃ sent', KnowsOutbox c (c.step p w).1 (c.step p w).2 sent' := by
  obtain ⟨sent', hsent', hstep⟩ := publishStep_of_hasSent h.hasSent h.nodup h.known
  have hremarked := Remarked.step h.hasSent w
  have hnodup := hstep.nodup h.nodup
  generalize (c.step p w).1 = p', (c.step p w).2 = w' at hsent' hstep hremarked hnodup ⊢
  cases hstep with
  | list =>
    refine ⟨.nothing, [], hsent', hnodup, ?_, fun m hm => absurd hm List.not_mem_nil⟩
    intro m hm
    exact statusOf_ne_none_iff.mpr ⟨m, (c.mem_batch hm).1, rfl⟩
  | give m hmessages hopen hopen' =>
    have hin : m ∈ p.messages := by
      rw [← hmessages]
      exact hsent'.prefix_messages.subset (List.mem_append_right _ (List.mem_singleton.mpr rfl))
    refine ⟨.delivers (c.delivery m) (h.known m hin), _, hsent', hnodup, ?_, ?_⟩
    · rw [hmessages]
      exact h.known
    · intro x hx
      rcases List.mem_append.mp hx with hx | hx
      · exact List.mem_append_left _ (h.delivered x hx)
      · rw [List.mem_singleton.mp hx]
        exact List.mem_append_right _ (List.mem_singleton.mpr rfl)
  | quiet hmessages hcommitted hfinished =>
    refine ⟨.nothing, _, hsent', hnodup, ?_, h.delivered⟩
    rw [hmessages]
    exact h.known
  | commit hmessages hopen hcommitted hmarked =>
    refine ⟨.marks c p.messages _ hremarked hmarked h.delivered, _, hsent', hnodup, ?_, h.delivered⟩
    intro m hm
    rw [hmessages] at hm
    exact mt (hmarked.known _).mp (h.known m hm)

/-! ## The contract -/

theorem owns_step (k : Work) (w : World) : owns (step k w).1 ⊆ owns k := by
  cases k with
  | publishing c p => exact Set.Subset.refl _
  | processing uc c phase =>
    have hone : ∀ phase', owns (.processing uc c phase') ⊆ {c.correlationId} := by
      intro phase'
      cases phase' with
      | finished result => exact Set.empty_subset _
      | starting => exact Set.Subset.refl _
      | numbered n => exact Set.Subset.refl _
      | submitting n hash d => exact Set.Subset.refl _
      | recording r purpose => exact Set.Subset.refl _
      | committing r purpose writes => exact Set.Subset.refl _
      | givingUp exc => exact Set.Subset.refl _
    cases phase with
    | finished result => exact Set.Subset.refl _
    | starting => exact hone _
    | numbered n => exact hone _
    | submitting n hash d => exact hone _
    | recording r purpose => exact hone _
    | committing r purpose writes => exact hone _
    | givingUp exc => exact hone _

theorem keeps_contract : Keeps job contract where
  start := by
    intro w t hv hpromise
    cases t with
    | process uc c => exact call_starting uc hv hpromise
    | publish c =>
      exact ⟨.nothing, [], .listing, List.nodup_nil, fun m hm => absurd hm List.not_mem_nil,
        fun m hm => absurd hm List.not_mem_nil⟩
  step := by
    intro w k _ hk
    cases k with
    | processing uc c phase => exact call_step hk
    | publishing c p =>
      obtain ⟨sent, hk⟩ := hk
      exact outbox_step hk
  valid hv hdoes := hv.does hdoes
  fresh := by
    intro w t k _ hpromise hk
    cases t with
    | process uc c => exact Set.disjoint_singleton_left.mpr fun hid => hpromise.2 (hk.issued hid)
    | publish c => exact Set.empty_disjoint _
  owns_step := owns_step
  stable hdoes hapart hk := hk.stable hdoes.frame hapart

variable {ι : Type} [DecidableEq ι] {s : Pool ι World Work}

/-- **The store of a fleet.** However many daemons and publishers run over
    it, in whatever order they take their steps, and wherever they are
    killed. -/
theorem reachable_valid (hs : (machine ι).Reachable s) : Valid s.shared := by
  have hholds : contract.Holds s := by
    refine keeps_contract.reachable ?_ hs
    rintro w ⟨rules, rfl⟩
    exact Valid.fresh rules
  exact hholds.valid

/-! ### A process that is killed -/

/-- The call has submitted when its process is killed. -/
def killed : List (Input Bool Task) :=
  [.start false (.process (Sample.useCase 1) (Sample.call Sample.refuse)), .turn false, .turn false,
    .kill false]

def nobody (ι : Type) : Pool ι World Work := ⟨World.fresh Sample.rules, fun _ => none⟩

theorem init_nobody : (machine ι).init (nobody ι) := ⟨⟨Sample.rules, rfl⟩, fun _ => rfl⟩

/-- Where nobody has a task, a call with the id of the sample may start. -/
theorem legal_sample (i : ι) (uc : ProcessOrderUseCase)
    (submit : String → PyVal → String → Except PyErr Unit) {inputs : List (Input ι Task)}
    (h : inputs.all Input.isFree = true) :
    (machine ι).Legal (nobody ι) (.start i (.process uc (Sample.call submit)) :: inputs) := by
  have huuid : isUuid Sample.correlationId = true := by decide
  have hnew : Promise (nobody ι).shared (.process uc (Sample.call submit)) :=
    ⟨huuid, List.not_mem_nil⟩
  refine legal_start ?_ hnew h
  intro k hk
  cases hk

theorem reachable_valid_killed :
    let w := ((machine Bool).run (nobody Bool) killed).shared
    Valid w ∧ w.submissions.length = 1 ∧ w.db.attempts = [] := by
  intro w
  have hs : (machine Bool).Reachable ((machine Bool).run (nobody Bool) killed) :=
    ⟨_, _, init_nobody, legal_sample false _ _ rfl, rfl⟩
  exact ⟨reachable_valid hs, rfl, rfl⟩

end Fleet

end RulesEnrichment
