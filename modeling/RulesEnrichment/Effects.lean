import RulesEnrichment.Model.UseCases

/-! # What a unit of work can do

    One statement for each use case: `persistResult_cases`,
    `moveToDeadLetter_cases` and `publishOutbox_cases`. Every invariant of
    the development is derived from these; none unfolds a use case again.

    * `Recorded`: the database after a result was recorded.
    * `DeadLettered`: the database after a move to the dead letter.
    * `Published`: the database after a publish call that committed. -/

namespace RulesEnrichment

open Python StableSort KeyedTable UnitOfWork

/-! ## Recording a result -/

/-- Nothing changed but that `r` was recorded. -/
structure Recorded (r : ResultRecord) (db db' : Database) : Prop where
  attempts : db'.attempts = db.attempts ++ [r.attempt]
  processedOrders : db'.processedOrders =
    if r.success then db.processedOrders.upsert r.processed else db.processedOrders
  outbox : db'.outbox.rows = db.outbox.rows ++ [r.message]
  free : db.outbox.find? r.message.messageId = none
  deadLetter : db'.deadLetter = db.deadLetter
  rules : db'.rules = db.rules

theorem Recorded.mem_attempts {r : ResultRecord} {db db' : Database} (h : Recorded r db db')
    {a : ProcessingAttempt} : a ∈ db'.attempts ↔ a ∈ db.attempts ∨ a = r.attempt := by
  rw [h.attempts, List.mem_append, List.mem_singleton]

theorem Recorded.mem_outbox {r : ResultRecord} {db db' : Database} (h : Recorded r db db')
    {m : OutboxMessage} : m ∈ db'.outbox.rows ↔ m ∈ db.outbox.rows ∨ m = r.message := by
  rw [h.outbox, List.mem_append, List.mem_singleton]

/-- Why a unit of work that enqueues `m` may be refused: the commit
    faults, the payload is not JSON, or the message id is taken. -/
def Refused (fault : Option PyErr) (db : Database) (m : OutboxMessage) : Prop :=
  fault ≠ none ∨ firstForeign m.payloadJson ≠ none ∨ db.outbox.find? m.messageId ≠ none

/-- The session of `PersistProcessingResultUseCase.execute`. -/
def persistSession (r : ResultRecord) (db : Database) : DbSession :=
  let s : DbSession := Session.enter db
  let s := ProcessingAttemptRepository.save s r.attempt
  let s := if r.success then ProcessedOrderRepository.save s r.processed else s
  OutboxRepository.enqueue s r.message

theorem persistResult_session (fault : Option PyErr) (r : ResultRecord) (db : Database) :
    persistResult fault r db = (persistSession r db).commit fault db := rfl

/-- Flushing the writes of a record. -/
theorem persistResult_writes (r : ResultRecord) (db : Database) :
    ∃ ws, (∀ fault, persistResult fault r db = UnitOfWork.commit Write.apply fault ws db) ∧
      applyAll Write.apply ws db =
        (Write.insertOutbox r.message).apply { db with
          attempts := db.attempts ++ [r.attempt]
          processedOrders :=
            if r.success then db.processedOrders.upsert r.processed else db.processedOrders } := by
  cases hs : r.success with
  | false =>
    -- a failure does not touch the processed order
    refine ⟨[.insertAttempt r.attempt, .insertOutbox r.message], ?_, ?_⟩
    · intro fault
      simp [persistResult, hs, DbSession.commit, ProcessingAttemptRepository.save,
        OutboxRepository.enqueue, Session.add, Session.enter]
    · simp only [applyAll, applyWrite_insertAttempt, Bool.false_eq_true, if_false]
      split <;> simp_all
  | true =>
    -- `x` is the insert or the update of the processed order
    obtain ⟨x, hx, hax⟩ := apply_save_processed db r.processed [.insertAttempt r.attempt]
      { db with attempts := db.attempts ++ [r.attempt] } rfl
    refine ⟨[.insertAttempt r.attempt, x, .insertOutbox r.message], ?_, ?_⟩
    · intro fault
      have hsave : ProcessedOrderRepository.save
          (ProcessingAttemptRepository.save (Session.enter db) r.attempt) r.processed =
            ⟨db, [.insertAttempt r.attempt, x]⟩ := hx
      simp only [persistResult, hs, if_true, hsave]
      rfl
    · simp only [applyAll, applyWrite_insertAttempt, hax, if_true]
      split <;> simp_all

/-- **Recording a result** either is refused and changes nothing, or does
    exactly what `Recorded` says. -/
theorem persistResult_cases (fault : Option PyErr) (r : ResultRecord) (db : Database) :
    (∃ e, persistResult fault r db = (.error e, db) ∧ Refused fault db r.message) ∨
    (∃ db', persistResult fault r db = (.ok (), db') ∧ Recorded r db db' ∧ fault = none) := by
  obtain ⟨ws, hcommit, happly⟩ := persistResult_writes r db
  rw [hcommit fault]
  rcases UnitOfWork.commit_cases Write.apply fault ws db with ⟨e, he⟩ | ⟨db', hc, hok, hfault⟩
  · left
    refine ⟨e, he, ?_⟩
    by_contra hno
    -- nothing refuses the record, so its commit would have returned
    unfold Refused at hno
    simp only [not_or, not_not] at hno
    obtain ⟨hfault, hjson, hfree⟩ := hno
    have htaken : db.outbox.insert? r.message ≠ none :=
      fun h => (Table.insert?_eq_none_iff _ _).mp h hfree
    obtain ⟨t, ht⟩ := Option.ne_none_iff_exists'.mp htaken
    have hinsert := happly.trans (apply_insertOutbox_ok_iff.mpr ⟨hjson, t, ht, rfl⟩)
    rw [(UnitOfWork.commit_ok_iff Write.apply).mpr ⟨hinsert, hfault⟩] at he
    cases he
  · right
    rw [happly, apply_insertOutbox_ok_iff] at hok
    obtain ⟨_, t, ht, rfl⟩ := hok
    exact ⟨_, hc, {
      attempts := rfl
      processedOrders := rfl
      outbox := Table.rows_of_insert? ht
      free := Table.find?_of_insert? ht
      deadLetter := rfl
      rules := rfl }, hfault⟩

/-! ## Moving an order to the dead letter -/

/-- Nothing changed but that `r` went to the dead letter. -/
structure DeadLettered (r : DeadLetterRecord) (db db' : Database) : Prop where
  attempts : db'.attempts = db.attempts
  processedOrders : db'.processedOrders = db.processedOrders
  outbox : db'.outbox.rows = db.outbox.rows ++ [r.message]
  free : db.outbox.find? r.message.messageId = none
  deadLetter : db'.deadLetter = db.deadLetter ++ [r.item]
  rules : db'.rules = db.rules

theorem DeadLettered.mem_outbox {r : DeadLetterRecord} {db db' : Database}
    (h : DeadLettered r db db') {m : OutboxMessage} :
    m ∈ db'.outbox.rows ↔ m ∈ db.outbox.rows ∨ m = r.message := by
  rw [h.outbox, List.mem_append, List.mem_singleton]

theorem DeadLettered.mem_deadLetter {r : DeadLetterRecord} {db db' : Database}
    (h : DeadLettered r db db') {i : DeadLetterItem} :
    i ∈ db'.deadLetter ↔ i ∈ db.deadLetter ∨ i = r.item := by
  rw [h.deadLetter, List.mem_append, List.mem_singleton]

/-- **Moving to the dead letter** either is refused and changes nothing, or
    does exactly what `DeadLettered` says, and then its payload was JSON. -/
theorem moveToDeadLetter_cases (fault : Option PyErr) (r : DeadLetterRecord) (db : Database) :
    (∃ e, moveToDeadLetter fault r db = (.error e, db)) ∨
    (∃ db', moveToDeadLetter fault r db = (.ok (), db') ∧ DeadLettered r db db' ∧
      firstForeign r.item.payloadJson = none) := by
  have hcommit : moveToDeadLetter fault r db =
      UnitOfWork.commit Write.apply fault [.insertDeadLetter r.item, .insertOutbox r.message] db :=
    rfl
  rw [hcommit]
  rcases UnitOfWork.commit_cases Write.apply fault
    [.insertDeadLetter r.item, .insertOutbox r.message] db with ⟨e, he⟩ | ⟨db', hc, hok, _⟩
  · exact Or.inl ⟨e, he⟩
  · right
    refine ⟨db', hc, ?_⟩
    -- the item is flushed first, so a payload that is not JSON stops the flush there
    cases hf : firstForeign r.item.payloadJson with
    | some t => simp [applyAll, Write.apply, encodeJsonColumn, hf] at hok
    | none =>
      have hdl : (Write.insertDeadLetter r.item).apply db =
          .ok { db with deadLetter := db.deadLetter ++ [r.item] } := by
        simp [Write.apply, encodeJsonColumn, hf]
      rw [applyAll_cons_ok Write.apply hdl] at hok
      cases hm : (Write.insertOutbox r.message).apply
          { db with deadLetter := db.deadLetter ++ [r.item] } with
      | error e => simp [applyAll, hm] at hok
      | ok db₁ =>
        rw [applyAll_cons_ok Write.apply hm, applyAll_nil] at hok
        cases hok
        obtain ⟨_, t, ht, rfl⟩ := apply_insertOutbox_ok_iff.mp hm
        exact ⟨{
          attempts := rfl
          processedOrders := rfl
          outbox := Table.rows_of_insert? ht
          free := Table.find?_of_insert? ht
          deadLetter := rfl
          rules := rfl }, rfl⟩

/-! ## Publishing the outbox -/

namespace PublishCall

variable (c : PublishCall)

/-- Whether the sink accepts the message. -/
def accepts (m : OutboxMessage) : Bool := (c.sink m).isOk

/-- What becomes of a message that was taken up. -/
def settle (m : OutboxMessage) : OutboxMessage :=
  if c.accepts m then m.published (c.markedAt m.messageId) else m.failed

/-- The write that marks a message. -/
def mark (m : OutboxMessage) : Write :=
  if c.accepts m then .setPublished m.messageId (c.markedAt m.messageId) else .setFailed m.messageId

def delivery (m : OutboxMessage) : Delivery := ⟨m.messageId, c.accepts m⟩

/-- The status of a message that was taken up tells what the sink did. -/
theorem delivery_settle (m : OutboxMessage) :
    ⟨(c.settle m).messageId, decide ((c.settle m).status = .PUBLISHED)⟩ = c.delivery m := by
  unfold settle delivery
  cases c.accepts m <;> rfl

/-- Whether the call takes up the message with this id. -/
def takes (db : Database) (messageId : String) : Bool :=
  messageId ∈ (c.batch db).map (·.messageId)

@[simp] theorem messageId_settle (m : OutboxMessage) :
    (c.settle m).messageId = m.messageId := by
  unfold settle; split <;> rfl

@[simp] theorem eventType_settle (m : OutboxMessage) :
    (c.settle m).eventType = m.eventType := by
  unfold settle; split <;> rfl

@[simp] theorem aggregateId_settle (m : OutboxMessage) :
    (c.settle m).aggregateId = m.aggregateId := by
  unfold settle; split <;> rfl

@[simp] theorem payloadJson_settle (m : OutboxMessage) :
    (c.settle m).payloadJson = m.payloadJson := by
  unfold settle; split <;> rfl

theorem mem_batch {db : Database} {m : OutboxMessage} (hm : m ∈ c.batch db) :
    m ∈ db.outbox.rows ∧ m.status = .PENDING := by
  have hsorted := List.mem_of_mem_take hm
  rw [mem_sortBy] at hsorted
  obtain ⟨hrun, hpending⟩ := List.mem_filter.mp hsorted
  exact ⟨(c.scan.perm _).mem_iff.mp hrun, by simpa using hpending⟩

/-- A batch holds no message twice. -/
theorem nodup_batch (db : Database) : ((c.batch db).map (·.messageId)).Nodup := by
  -- scanning and sorting permute the rows, filtering and the limit drop some
  have hrun : ((c.scan.run db.outbox.rows).map (·.messageId)).Nodup :=
    ((c.scan.perm _).map _).nodup_iff.mpr db.outbox.nodup
  have hpending : (((c.scan.run db.outbox.rows).filter (·.status = .PENDING)).map
      (·.messageId)).Nodup := hrun.sublist (List.filter_sublist.map _)
  have hsorted := ((sortBy_perm (fun m : OutboxMessage => m.createdAt.instant) _).map
    (·.messageId)).nodup_iff.mpr hpending
  exact hsorted.sublist ((List.take_sublist _ _).map _)

/-- The loop marks every message of its list and gives it to the sink. -/
theorem publishLoop_eq (msgs : List OutboxMessage) (s : DbSession) (n : Nat)
    (log : List Delivery) (h : ∀ m ∈ msgs, m ∈ s.snapshot.outbox.rows) :
    publishLoop c msgs s n log =
      (⟨s.snapshot, s.writes ++ msgs.map c.mark⟩, n + (msgs.filter c.accepts).length,
        log ++ msgs.map c.delivery) := by
  -- the snapshot stays the same, so every message of the list is still found in it
  induction msgs generalizing s n log with
  | nil => simp [publishLoop]
  | cons m msgs ih =>
    have hfind : s.snapshot.outbox.find? m.messageId = some m :=
      Table.find?_self _ (h m List.mem_cons_self)
    have hrest : ∀ m' ∈ msgs, m' ∈ s.snapshot.outbox.rows :=
      fun m' hm' => h m' (List.mem_cons_of_mem _ hm')
    unfold publishLoop
    cases hs : c.sink m with
    | ok u =>
      have hacc : c.accepts m = true := by simp [accepts, hs, Except.isOk, Except.toBool]
      simp only [OutboxRepository.markPublished, hfind]
      rw [ih (s.add _) _ _ hrest]
      simp [mark, delivery, hacc, Nat.add_assoc, Nat.add_comm 1]
    | error e =>
      have hacc : c.accepts m = false := by simp [accepts, hs, Except.isOk, Except.toBool]
      simp only [OutboxRepository.markFailed, hfind]
      rw [ih (s.add _) _ _ hrest]
      simp [mark, delivery, hacc]

/-- The mark of a message settles its row and no other. -/
theorem apply_mark {db : Database} {m : OutboxMessage} (hm : m ∈ db.outbox.rows) :
    ∃ t, (c.mark m).apply db = .ok { db with outbox := t } ∧
      t.rows = db.outbox.rows.map fun x => if x.messageId = m.messageId then c.settle x else x := by
  have hrow : ∀ x ∈ db.outbox.rows, x.messageId = m.messageId → x = m :=
    fun x hx hk => Table.eq_of_key _ hx hm hk
  unfold mark
  by_cases hacc : c.accepts m = true
  · rw [if_pos hacc]
    refine ⟨_, rfl, ?_⟩
    apply List.map_congr_left
    intro x hx
    by_cases hk : x.messageId = m.messageId
    · rw [if_pos hk, if_pos hk, hrow x hx hk, settle, if_pos hacc]
    · rw [if_neg hk, if_neg hk]
  · rw [if_neg hacc]
    refine ⟨_, rfl, ?_⟩
    apply List.map_congr_left
    intro x hx
    by_cases hk : x.messageId = m.messageId
    · rw [if_pos hk, if_pos hk, hrow x hx hk, settle, if_neg hacc]
    · rw [if_neg hk, if_neg hk]

/-- Flushing the marks of some messages settles exactly their rows. -/
theorem applyAll_marks (msgs : List OutboxMessage) (db : Database)
    (hmem : ∀ m ∈ msgs, m ∈ db.outbox.rows) (hnodup : (msgs.map (·.messageId)).Nodup) :
    ∃ t, applyAll Write.apply (msgs.map c.mark) db = .ok { db with outbox := t } ∧
      t.rows = db.outbox.rows.map fun m =>
        if m.messageId ∈ msgs.map (·.messageId) then c.settle m else m := by
  induction msgs generalizing db with
  | nil => exact ⟨db.outbox, rfl, by simp⟩
  | cons m msgs ih =>
    obtain ⟨hnotin, hnodup'⟩ := List.nodup_cons.mp hnodup
    obtain ⟨t₁, happly, hrows⟩ := c.apply_mark (hmem m List.mem_cons_self)
    -- the other messages are still rows: their ids differ from that of `m`
    have hmem' : ∀ m' ∈ msgs, m' ∈ ({ db with outbox := t₁ } : Database).outbox.rows := by
      intro m' hm'
      have hne : m'.messageId ≠ m.messageId := fun hk =>
        hnotin (List.mem_map.mpr ⟨m', hm', hk⟩)
      show m' ∈ t₁.rows
      rw [hrows, List.mem_map]
      exact ⟨m', hmem m' (List.mem_cons_of_mem _ hm'), if_neg hne⟩
    obtain ⟨t, hrest, ht⟩ := ih _ hmem' hnodup'
    refine ⟨t, ?_, ?_⟩
    · rw [List.map_cons, applyAll_cons_ok Write.apply happly, hrest]
    · have ht : t.rows = t₁.rows.map fun x =>
          if x.messageId ∈ msgs.map (·.messageId) then c.settle x else x := ht
      rw [ht, hrows, List.map_map]
      apply List.map_congr_left
      intro x _
      by_cases hk : x.messageId = m.messageId
      · -- the row of `m`, settled by the first mark and left alone by the rest
        have hnot : x.messageId ∉ msgs.map (·.messageId) := hk ▸ hnotin
        have hin : x.messageId ∈ (m :: msgs).map (·.messageId) :=
          List.mem_map.mpr ⟨m, List.mem_cons_self, hk.symm⟩
        rw [Function.comp_apply, if_pos hk, messageId_settle, if_neg hnot, if_pos hin]
      · simp [hk]

/-- A row is taken up under its id exactly if it is in the batch. -/
theorem takes_iff {db : Database} {m : OutboxMessage} (hm : m ∈ db.outbox.rows) :
    c.takes db m.messageId = true ↔ m ∈ c.batch db := by
  unfold takes
  rw [decide_eq_true_eq, List.mem_map]
  constructor
  · intro h
    obtain ⟨x, hx, hid⟩ := h
    have heq : x = m := Table.eq_of_key _ (c.mem_batch hx).1 hm hid
    rw [← heq]
    exact hx
  · intro h
    exact ⟨m, h, rfl⟩

/-- A message that was taken up is pending no more. -/
theorem status_settle (m : OutboxMessage) : (c.settle m).status ≠ .PENDING := by
  unfold settle
  split <;> exact nofun

end PublishCall

/-- Nothing changed but that the messages of the batch were settled. -/
structure Published (c : PublishCall) (db db' : Database) : Prop where
  outbox : db'.outbox.rows =
    db.outbox.rows.map fun m => if c.takes db m.messageId then c.settle m else m
  attempts : db'.attempts = db.attempts
  processedOrders : db'.processedOrders = db.processedOrders
  deadLetter : db'.deadLetter = db.deadLetter
  rules : db'.rules = db.rules

/-- Only the outbox changes. -/
theorem Published.eq {c : PublishCall} {db db' : Database} (h : Published c db db') :
    db' = { db with outbox := db'.outbox } := by
  obtain ⟨_, hattempts, hprocessed, hdead, hrules⟩ := h
  obtain ⟨rules, attempts, processedOrders, outbox, deadLetter⟩ := db'
  simp only at hattempts hprocessed hdead hrules
  rw [hattempts, hprocessed, hdead, hrules]

/-- The row that a message becomes, under its id and of its type. -/
theorem Published.exists_settled {c : PublishCall} {db db' : Database} (h : Published c db db')
    {m : OutboxMessage} (hm : m ∈ db.outbox.rows) :
    ∃ m' ∈ db'.outbox.rows, m'.messageId = m.messageId ∧ m'.eventType = m.eventType := by
  refine ⟨if c.takes db m.messageId then c.settle m else m, ?_, ?_⟩
  · rw [h.outbox]
    exact List.mem_map.mpr ⟨m, hm, rfl⟩
  · split <;> simp

/-- The row that a message was, under its id, of its type and its order. -/
theorem Published.exists_source {c : PublishCall} {db db' : Database} (h : Published c db db')
    {m' : OutboxMessage} (hm' : m' ∈ db'.outbox.rows) :
    ∃ m ∈ db.outbox.rows, m'.messageId = m.messageId ∧ m'.eventType = m.eventType ∧
      m'.aggregateId = m.aggregateId := by
  rw [h.outbox] at hm'
  obtain ⟨m, hm, rfl⟩ := List.mem_map.mp hm'
  refine ⟨m, hm, ?_⟩
  split <;> simp

/-- What a publish call leaves behind: the deliveries of its batch, and the
    database it commits. -/
def World.delivered (w : World) (c : PublishCall) (db : Database) : World :=
  { w with db := db, deliveries := w.deliveries ++ (c.batch w.db).map c.delivery }

/-- **A publish call** gives every message of its batch to the sink; its
    commit either faults and changes nothing, or settles the batch. -/
theorem publishOutbox_cases (c : PublishCall) (w : World) :
    (∃ e, c.commitFault = some e ∧ publishOutbox c w = (.error e, w.delivered c w.db)) ∨
    (∃ db, c.commitFault = none ∧ Published c w.db db ∧
      publishOutbox c w = (.ok ((c.batch w.db).filter c.accepts).length, w.delivered c db)) := by
  have hmem : ∀ m ∈ c.batch w.db, m ∈ w.db.outbox.rows := fun m hm => (c.mem_batch hm).1
  have hloop := c.publishLoop_eq (c.batch w.db) (Session.enter w.db) 0 [] hmem
  obtain ⟨t, happly, ht⟩ := c.applyAll_marks (c.batch w.db) w.db hmem (c.nodup_batch w.db)
  unfold publishOutbox
  simp only [hloop, Session.writes_enter, List.nil_append, Nat.zero_add, DbSession.commit]
  cases hfault : c.commitFault with
  | some e =>
    refine Or.inl ⟨e, rfl, ?_⟩
    simp [UnitOfWork.commit, happly, World.delivered]
  | none =>
    refine Or.inr ⟨{ w.db with outbox := t }, rfl, ?_, ?_⟩
    · exact ⟨by simpa [PublishCall.takes] using ht, rfl, rfl, rfl, rfl⟩
    · simp [UnitOfWork.commit, happly, World.delivered]

/-- A publish call changes no other table. -/
theorem publishOutbox_frame (c : PublishCall) (w : World) :
    (publishOutbox c w).2.db = { w.db with outbox := (publishOutbox c w).2.db.outbox } := by
  rcases publishOutbox_cases c w with ⟨_, _, hres⟩ | ⟨db, _, hpub, hres⟩
  · rw [hres]
    rfl
  · rw [hres]
    exact hpub.eq

/-- Nor does it submit anything. -/
theorem submissions_publishOutbox (c : PublishCall) (w : World) :
    (publishOutbox c w).2.submissions = w.submissions := by
  rcases publishOutbox_cases c w with ⟨_, _, hres⟩ | ⟨_, _, _, hres⟩
  · rw [hres]
    rfl
  · rw [hres]
    rfl

end RulesEnrichment
