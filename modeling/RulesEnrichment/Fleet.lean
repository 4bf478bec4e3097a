import RulesEnrichment.Lib.WorkerPool
import RulesEnrichment.Lib.Simulation
import RulesEnrichment.Daemons
import RulesEnrichment.Publishers
import RulesEnrichment.Submissions

/-! # A fleet of processes

    Any number of daemons and publishers, of any versions, run over one
    database. Each takes up an order, or the outbox, and goes through the
    steps of its use case, and it may be killed between any two of them.
    What it has sent and committed stays; an open session is rolled back.

    * `processing_within_fleet`: calls one after another are a run of one
      process that has all turns.
    * `Does`: what a step may do to the store and the outside, and what
      its process has made sure of before.
    * `reachable_valid`: what holds in every state of every fleet. -/

namespace RulesEnrichment

open StepMachine UnitOfWork KeyedTable WorkerPool

/-! ## Processes -/

/-- What a process is at. -/
inductive Work where
  | processing (uc : ProcessOrderUseCase) (c : ProcessCall) (phase : DaemonPhase)
  | publishing (c : PublishCall) (p : Publisher)

/-- What a process takes up. -/
inductive Task where
  | process (uc : ProcessOrderUseCase) (c : ProcessCall)
  | publish (c : PublishCall)

namespace Fleet

/-- A call gets its id when it starts, and reads the attempt number. -/
def start : Task → World → Work × World
  | .process uc c, w => (.processing uc c (c.step uc .starting w).1, (c.step uc .starting w).2)
  | .publish c, w => (.publishing c .idle, w)

def step : Work → World → Work × World
  | .processing uc c phase, w => (.processing uc c (c.step uc phase w).1, (c.step uc phase w).2)
  | .publishing c p, w => (.publishing c (c.step p w).1, (c.step p w).2)

def Promise (w : World) : Task → Prop
  | .process _ c => Processing.FreshId w (.process c)
  | .publish c => Processing.FreshId w (.publish c)

def Done : Work → Prop
  | .processing _ _ phase => ∃ result, phase = .finished result
  | .publishing _ p => p.Finished

def job : Job World Task Work := ⟨start, step, Promise, Done⟩

/-- The fleet, from a fresh world. -/
def machine (ι : Type) [DecidableEq ι] : Machine (Pool ι World Work) (Input ι Task) :=
  job.machine ι fun w => ∃ rules, w = World.fresh rules

/-! ## One process alone -/

theorem iterate_processing (uc : ProcessOrderUseCase) (c : ProcessCall) (n : Nat)
    (phase : DaemonPhase) (w : World) :
    (fun q : Work × World => step q.1 q.2)^[n] (.processing uc c phase, w) =
      (.processing uc c ((fun q => c.step uc q.1 q.2)^[n] (phase, w)).1,
        ((fun q => c.step uc q.1 q.2)^[n] (phase, w)).2) := by
  induction n generalizing phase w with
  | zero => rfl
  | succ n ih => exact ih (c.step uc phase w).1 (c.step uc phase w).2

theorem iterate_publishing (c : PublishCall) (n : Nat) (p : Publisher) (w : World) :
    (fun q : Work × World => step q.1 q.2)^[n] (.publishing c p, w) =
      (.publishing c ((fun q => c.step q.1 q.2)^[n] (p, w)).1,
        ((fun q => c.step q.1 q.2)^[n] (p, w)).2) := by
  induction n generalizing p w with
  | zero => rfl
  | succ n ih => exact ih (c.step p w).1 (c.step p w).2

variable {ι : Type} [DecidableEq ι]

/-- A process that has all turns for what it takes up. -/
theorem run_task {s : Pool ι World Work} {i : ι} {t : Task} {n : Nat} {k : Work} {w : World}
    (h : (fun q : Work × World => step q.1 q.2)^[n] (start t s.shared) = (k, w)) :
    (machine ι).run s (.start i t :: List.replicate n (.turn i)) = s.put i (some k) w := by
  rw [Machine.run_cons]
  show (job.machine ι _).run (s.put i (some (start t s.shared).1) (start t s.shared).2) _ = _
  rw [run_turns (Pool.locals_put_self i _) n, Pool.shared_put]
  show Pool.put _ i (some ((fun q : Work × World => step q.1 q.2)^[n] (start t s.shared)).1)
    ((fun q : Work × World => step q.1 q.2)^[n] (start t s.shared)).2 = _
  rw [h]
  unfold Pool.put
  rw [Function.update_idem]

/-- An order is processed as `execute` does. -/
theorem run_process (uc : ProcessOrderUseCase) (c : ProcessCall) (s : Pool ι World Work) (i : ι) :
    (machine ι).run s (.start i (.process uc c) :: List.replicate 7 (.turn i)) =
      s.put i (some (.processing uc c (.finished (c.execute uc s.shared).1)))
        (c.execute uc s.shared).2 := by
  refine run_task ?_
  let p : TwoCalls := ⟨fun _ => c, c.order.orderId, fun _ => rfl⟩
  have halone := alone_starting uc p false s.shared
  rw [Interleaving.alone_succ] at halone
  unfold start
  rw [iterate_processing]
  unfold Interleaving.alone at halone
  rw [halone]

/-- The outbox is published as `publishOutbox` does. -/
theorem run_publish (c : PublishCall) (s : Pool ι World Work) (i : ι) :
    ∃ n p, (machine ι).run s (.start i (.publish c) :: List.replicate n (.turn i)) =
      s.put i (some (.publishing c p)) (publishOutbox c s.shared).2 ∧ p.Finished := by
  let n := 1 + (2 * (c.batch s.shared.db).length + 1)
  obtain ⟨hphase, hshared⟩ := run_alone_eq_publishOutbox (fun _ => c) false s.shared
  have hrun : ((publishers fun _ => c).run (bothIdle s.shared) (List.replicate n false)).locals
        false = (Interleaving.alone (fun _ => c.step) false n (.idle, s.shared)).1 ∧
      ((publishers fun _ => c).run (bothIdle s.shared) (List.replicate n false)).shared =
        (Interleaving.alone (fun _ => c.step) false n (.idle, s.shared)).2 :=
    Interleaving.run_replicate (bothIdle s.shared) false n
  refine ⟨n, ((fun q => c.step q.1 q.2)^[n] (.idle, s.shared)).1, run_task ?_, ?_⟩
  · unfold start
    rw [iterate_publishing]
    exact congrArg (Prod.mk _) (hrun.2.symm.trans hshared)
  · exact ⟨_, (congrArg Publisher.phase hrun.1).symm.trans hphase⟩

/-- **Calls one after another** are a run of one process that is never
    killed. -/
theorem processing_within_fleet (uc : ProcessOrderUseCase) (i : ι) :
    Simulates (Processing.machine uc) (machine ι) fun w s =>
      s.shared = w ∧ ∀ j k, s.locals j = some k → Done k := by
  have hput : ∀ (s : Pool ι World Work) (k : Work) (w : World),
      (∀ j l, s.locals j = some l → Done l) → Done k →
        ∀ j l, (s.put i (some k) w).locals j = some l → Done l := by
    intro s k w hs hk j l hl
    by_cases hj : j = i
    · rw [hj, Pool.locals_put_self] at hl
      cases hl
      exact hk
    · rw [Pool.locals_put_of_ne hj] at hl
      exact hs j l hl
  have hlegal : ∀ (s : Pool ι World Work) (t : Task) (n : Nat),
      (∀ j l, s.locals j = some l → Done l) → Promise s.shared t →
        (machine ι).Legal s (.start i t :: List.replicate n (.turn i)) := by
    intro s t n hs ht
    refine legal_start (hs i) ht (List.all_eq_true.mpr fun input hinput => ?_)
    rw [List.eq_of_mem_replicate hinput]
    rfl
  constructor
  · intro w hw
    refine ⟨⟨w, fun _ => none⟩, ⟨hw, fun _ => rfl⟩, rfl, ?_⟩
    intro j k hk
    cases hk
  · intro w s input hR hinput
    obtain ⟨rfl, hdone⟩ := hR
    cases input with
    | process c =>
      refine ⟨_, hlegal s (.process uc c) 7 hdone hinput, ?_⟩
      rw [run_process]
      exact ⟨rfl, hput _ _ _ hdone ⟨_, rfl⟩⟩
    | publish c =>
      obtain ⟨n, p, hrun, hp⟩ := run_publish c s i
      refine ⟨_, hlegal s (.publish c) n hdone hinput, ?_⟩
      rw [hrun]
      exact ⟨rfl, hput _ _ _ hdone hp⟩

/-! ## What a step does -/

/-- Only the marks of messages have changed. -/
structure Remarked (db db' : Database) : Prop where
  attempts : db'.attempts = db.attempts
  processedOrders : db'.processedOrders = db.processedOrders
  deadLetter : db'.deadLetter = db.deadLetter
  outbox : ∃ f : OutboxMessage → OutboxMessage, db'.outbox.rows = db.outbox.rows.map f ∧
    ∀ m, (f m).messageId = m.messageId ∧ (f m).eventType = m.eventType ∧
      (f m).aggregateId = m.aggregateId ∧ (f m).payloadJson = m.payloadJson

/-- Every number before `n` is taken by an attempt of the order. -/
def Follows (db : Database) (orderId : String) (n : Nat) : Prop :=
  1 ≤ n ∧ ∀ m, 1 ≤ m → m < n → ∃ a ∈ db.attempts, a.orderId = orderId ∧ a.attemptNumber = m

/-- What was submitted is behind the result. -/
def Backed (w : World) (r : ResultRecord) : Prop :=
  if r.success then AcceptedFor w r.correlationId r.orderId ∨ IsNoMatchEvent r.message
  else ∃ x ∈ w.submissions, x.correlationId = r.correlationId ∧ x.orderId = r.orderId

/-- The order has failed under this id. -/
def FailedUnder (db : Database) (id orderId : String) : Prop :=
  ∃ a ∈ db.attempts, a.status = .FAILED ∧ a.correlationId = id ∧ a.orderId = orderId

/-- What a step of a process with the ids `own` does to the world, and what
    the process has made sure of. -/
inductive Does (own : Set String) (w : World) : World → Prop where
  | nothing : Does own w w
  | issues (id : String) (hown : id ∈ own) (huuid : isUuid id = true) (hnew : id ∉ w.issued) :
      Does own w (w.issue id)
  | submits (x : Submission) (hown : x.correlationId ∈ own) (hissued : x.correlationId ∈ w.issued)
      (hnew : ∀ y ∈ w.submissions, y.correlationId ≠ x.correlationId) :
      Does own w { w with submissions := w.submissions ++ [x] }
  | records (r : ResultRecord) (db : Database) (hown : r.correlationId ∈ own)
      (hrec : Recorded r w.db db) (hissued : r.correlationId ∈ w.issued)
      (hnew : ∀ a ∈ w.db.attempts, a.correlationId ≠ r.correlationId)
      (hnumber : Follows w.db r.orderId r.attemptNumber) (hbacked : Backed w r) :
      Does own w { w with db := db }
  | givesUp (r : DeadLetterRecord) (db : Database) (hown : r.correlationId ∈ own)
      (hdead : DeadLettered r w.db db)
      (hnew : ∀ i ∈ w.db.deadLetter, i.correlationId ≠ r.correlationId)
      (hissued : r.correlationId ∈ w.issued) (hfailed : FailedUnder w.db r.correlationId r.orderId) :
      Does own w { w with db := db }
  | delivers (d : Delivery) (hrow : w.db.statusOf d.messageId ≠ none) :
      Does own w { w with deliveries := w.deliveries ++ [d] }
  | marks (c : PublishCall) (ms : List OutboxMessage) (db : Database) (hremarked : Remarked w.db db)
      (hmarked : Marked c ms w.db db) (hsent : ∀ m ∈ ms, c.delivery m ∈ w.deliveries) :
      Does own w { w with db := db }

theorem statusOf_ne_none_iff {db : Database} {k : String} :
    db.statusOf k ≠ none ↔ ∃ m ∈ db.outbox.rows, m.messageId = k := by
  unfold Database.statusOf
  rw [Ne, Option.map_eq_none_iff, Table.find?_eq_none_iff]
  simp

/-- What the other processes see of a step. -/
structure Frame (own : Set String) (w w' : World) : Prop where
  issued : ∀ id ∈ w.issued, id ∈ w'.issued
  submissions : ∃ xs, w'.submissions = w.submissions ++ xs ∧ ∀ x ∈ xs, x.correlationId ∈ own
  attempts : ∃ as, w'.db.attempts = w.db.attempts ++ as ∧ ∀ a ∈ as, a.correlationId ∈ own
  deadLetter : ∃ is, w'.db.deadLetter = w.db.deadLetter ++ is ∧ ∀ i ∈ is, i.correlationId ∈ own
  processed : ∀ o, w.db.processedOrders.find? o ≠ none → w'.db.processedOrders.find? o ≠ none
  messages : ∀ k, w.db.statusOf k ≠ none → w'.db.statusOf k ≠ none
  deliveries : ∀ d ∈ w.deliveries, d ∈ w'.deliveries

namespace Frame

variable {own : Set String} {w w' : World}

theorem mem_attempts (h : Frame own w w') {a : ProcessingAttempt} (ha : a ∈ w.db.attempts) :
    a ∈ w'.db.attempts := by
  obtain ⟨as, has, _⟩ := h.attempts
  rw [has]
  exact List.mem_append_left _ ha

theorem mem_submissions (h : Frame own w w') {x : Submission} (hx : x ∈ w.submissions) :
    x ∈ w'.submissions := by
  obtain ⟨xs, hxs, _⟩ := h.submissions
  rw [hxs]
  exact List.mem_append_left _ hx

/-- An attempt under an id that is not the process's was there before. -/
theorem attempts_of_not_own (h : Frame own w w') {a : ProcessingAttempt}
    (ha : a ∈ w'.db.attempts) (hown : a.correlationId ∉ own) : a ∈ w.db.attempts := by
  obtain ⟨as, has, hids⟩ := h.attempts
  rw [has] at ha
  exact (List.mem_append.mp ha).resolve_right fun hin => hown (hids a hin)

theorem submissions_of_not_own (h : Frame own w w') {x : Submission} (hx : x ∈ w'.submissions)
    (hown : x.correlationId ∉ own) : x ∈ w.submissions := by
  obtain ⟨xs, hxs, hids⟩ := h.submissions
  rw [hxs] at hx
  exact (List.mem_append.mp hx).resolve_right fun hin => hown (hids x hin)

theorem deadLetter_of_not_own (h : Frame own w w') {i : DeadLetterItem}
    (hi : i ∈ w'.db.deadLetter) (hown : i.correlationId ∉ own) : i ∈ w.db.deadLetter := by
  obtain ⟨is, his, hids⟩ := h.deadLetter
  rw [his] at hi
  exact (List.mem_append.mp hi).resolve_right fun hin => hown (hids i hin)

/-- A commit of neither attempts nor processed orders. -/
theorem of_db {db : Database} (hattempts : db.attempts = w.db.attempts)
    (hdead : ∃ is, db.deadLetter = w.db.deadLetter ++ is ∧ ∀ i ∈ is, i.correlationId ∈ own)
    (hprocessed : db.processedOrders = w.db.processedOrders)
    (hmessages : ∀ k, w.db.statusOf k ≠ none → db.statusOf k ≠ none) :
    Frame own w { w with db := db } where
  issued _ h := h
  submissions := ⟨[], (List.append_nil _).symm, fun _ h => absurd h List.not_mem_nil⟩
  attempts := ⟨[], hattempts.trans (List.append_nil _).symm, fun _ h => absurd h List.not_mem_nil⟩
  deadLetter := hdead
  processed o := by
    show _ → db.processedOrders.find? o ≠ none
    rw [hprocessed]
    exact id
  messages := hmessages
  deliveries _ h := h

end Frame

theorem Does.frame {own : Set String} {w w' : World} (h : Does own w w') : Frame own w w' := by
  have hnone : ∀ {α : Type} {l : List α} {f : α → String},
      ∃ xs, l = l ++ xs ∧ ∀ x ∈ xs, f x ∈ own :=
    fun {_ _ _} => ⟨[], (List.append_nil _).symm, fun _ hx => absurd hx List.not_mem_nil⟩
  cases h with
  | nothing =>
    exact ⟨fun _ h => h, hnone, hnone, hnone, fun _ h => h, fun _ h => h, fun _ h => h⟩
  | issues id hown =>
    exact ⟨fun _ h => List.mem_append_left _ h, hnone, hnone, hnone, fun _ h => h, fun _ h => h,
      fun _ h => h⟩
  | submits x hown =>
    refine ⟨fun _ h => h, ⟨[x], rfl, ?_⟩, hnone, hnone, fun _ h => h, fun _ h => h, fun _ h => h⟩
    intro y hy
    rwa [List.mem_singleton.mp hy]
  | records r db hown hrec =>
    refine ⟨fun _ h => h, hnone, ⟨[r.attempt], hrec.attempts, ?_⟩, ?_, ?_, ?_, fun _ h => h⟩
    · intro a ha
      rw [List.mem_singleton.mp ha]
      exact hown
    · show ∃ is, db.deadLetter = _ ∧ _
      rw [hrec.deadLetter]
      exact hnone
    · intro o ho
      show db.processedOrders.find? o ≠ none
      rw [hrec.processedOrders]
      split
      · exact fun h => ho ((Table.find?_upsert_eq_none_iff _ _).mp h).2
      · exact ho
    · intro k hk
      obtain ⟨m, hm, hid⟩ := statusOf_ne_none_iff.mp hk
      exact statusOf_ne_none_iff.mpr ⟨m, hrec.mem_outbox.mpr (Or.inl hm), hid⟩
  | givesUp r db hown hdead =>
    refine .of_db hdead.attempts ⟨[r.item], hdead.deadLetter, ?_⟩ hdead.processedOrders ?_
    · intro i hi
      rw [List.mem_singleton.mp hi]
      exact hown
    · intro k hk
      obtain ⟨m, hm, hid⟩ := statusOf_ne_none_iff.mp hk
      exact statusOf_ne_none_iff.mpr ⟨m, hdead.mem_outbox.mpr (Or.inl hm), hid⟩
  | delivers d hrow =>
    exact ⟨fun _ h => h, hnone, hnone, hnone, fun _ h => h, fun _ h => h,
      fun _ h => List.mem_append_left _ h⟩
  | marks c ms db hremarked hmarked =>
    refine .of_db hremarked.attempts ?_ hremarked.processedOrders fun k => mt (hmarked.known k).mp
    rw [hremarked.deadLetter]
    exact hnone

/-! ## What holds between the steps -/

/-- The last success of the order that was committed. -/
def lastSuccess (db : Database) (orderId : String) : Option ProcessingAttempt :=
  (db.attempts.filter fun a => a.orderId = orderId ∧ a.status = .SUCCESS).getLast?

/-- The tables agree: the events are those of the attempts and of the dead
    letters, one for one and in their order, and a processed order has the
    id of its last success. -/
structure Agreed (db : Database) : Prop where
  events : (db.outbox.rows.filter (·.eventType ≠ .OrderMovedToDeadLetter)).map
      (fun m => (m.messageId, some m.eventType)) =
    db.attempts.map fun a => (messageIdOf a.correlationId a.orderId, eventTypeOf a.status)
  deadLetters : (db.outbox.rows.filter (·.eventType = .OrderMovedToDeadLetter)).map (·.messageId) =
    db.deadLetter.map fun i => deadLetterMessageIdOf i.correlationId
  processed : ∀ o, (db.processedOrders.find? o).map (·.correlationId) =
    (lastSuccess db o).map (·.correlationId)

/-- What holds of the world whatever the processes are at. -/
structure Valid (w : World) : Prop where
  ids : IdsIssued w
  /-- Under one id there is one submission, one attempt and one dead letter. -/
  oneSubmission : (w.submissions.map (·.correlationId)).Nodup
  oneAttempt : (w.db.attempts.map (·.correlationId)).Nodup
  oneDeadLetter : (w.db.deadLetter.map (·.correlationId)).Nodup
  agreed : Agreed w.db
  numbers : ∀ a ∈ w.db.attempts, Follows w.db a.orderId a.attemptNumber
  success : SuccessAccepted w
  failure : ∀ a ∈ w.db.attempts, a.status = .FAILED →
    ∃ x ∈ w.submissions, x.correlationId = a.correlationId ∧ x.orderId = a.orderId
  deadLetter : ∀ i ∈ w.db.deadLetter, FailedUnder w.db i.correlationId i.orderId
  marks : ∀ m ∈ w.db.outbox.rows, m.status ≠ .PENDING →
    ⟨m.messageId, decide (m.status = .PUBLISHED)⟩ ∈ w.deliveries
  deliveries : ∀ d ∈ w.deliveries, w.db.statusOf d.messageId ≠ none

namespace Agreed

theorem fresh (rules : Table EnrichmentRule EnrichmentRule.ruleId) :
    Agreed (Database.fresh rules) := ⟨rfl, rfl, fun _ => rfl⟩

theorem preserve_recorded {db db' : Database} (h : Agreed db) {r : ResultRecord}
    (hrec : Recorded r db db') : Agreed db' := by
  have htype : r.message.eventType ≠ .OrderMovedToDeadLetter := by
    unfold ResultRecord.message
    cases r.success <;> exact nofun
  have hevent : eventTypeOf r.attempt.status = some r.message.eventType :=
    (isEventOf_record r).2
  constructor
  · have hone : [r.message].filter (·.eventType ≠ .OrderMovedToDeadLetter) = [r.message] := by
      simp [htype]
    rw [hrec.outbox, hrec.attempts, List.filter_append, hone, List.map_append, List.map_append,
      h.events, List.map_singleton, List.map_singleton, hevent]
    rfl
  · rw [hrec.outbox, hrec.deadLetter, List.filter_append, List.map_append, h.deadLetters]
    simp [htype]
  · intro o
    unfold lastSuccess
    rw [hrec.processedOrders, hrec.attempts, List.filter_append]
    have hold := h.processed o
    unfold lastSuccess at hold
    cases hs : r.success with
    | false =>
      have hstatus : r.attempt.status = .FAILED := by simp [ResultRecord.attempt, hs]
      simpa [hstatus] using hold
    | true =>
      have hstatus : r.attempt.status = .SUCCESS := by simp [ResultRecord.attempt, hs]
      by_cases ho : r.orderId = o
      · subst ho
        have hid : r.attempt.orderId = r.orderId := rfl
        have hfind : (db.processedOrders.upsert r.processed).find? r.orderId = some r.processed :=
          Table.find?_upsert_self _ _
        simp only [if_true, hfind, List.filter_cons, hid, hstatus, and_self, decide_true,
          List.filter_nil, List.getLast?_concat]
        rfl
      · have hid : r.attempt.orderId ≠ o := ho
        have hfind : (db.processedOrders.upsert r.processed).find? o = db.processedOrders.find? o :=
          Table.find?_upsert_ne _ _ fun h => ho h.symm
        simpa [hfind, hid] using hold

theorem preserve_deadLettered {db db' : Database} (h : Agreed db) {r : DeadLetterRecord}
    (hdead : DeadLettered r db db') : Agreed db' := by
  constructor
  · rw [hdead.outbox, hdead.attempts, List.filter_append, List.map_append, h.events]
    exact List.append_nil _
  · rw [hdead.outbox, hdead.deadLetter, List.filter_append, List.map_append, List.map_append,
      h.deadLetters]
    rfl
  · unfold lastSuccess
    rw [hdead.processedOrders, hdead.attempts]
    exact h.processed

theorem preserve_remarked {db db' : Database} (h : Agreed db) (hremarked : Remarked db db') :
    Agreed db' := by
  obtain ⟨f, hrows, hf⟩ := hremarked.outbox
  constructor
  · rw [hrows, hremarked.attempts, ← h.events, List.filter_map, List.map_map]
    simp [Function.comp_def, hf]
  · rw [hrows, hremarked.deadLetter, ← h.deadLetters, List.filter_map, List.map_map]
    simp [Function.comp_def, hf]
  · unfold lastSuccess
    rw [hremarked.processedOrders, hremarked.attempts]
    exact h.processed

end Agreed

namespace Frame

variable {own : Set String} {w w' : World}

theorem follows (h : Frame own w w') {o : String} {n : Nat} (hn : Follows w.db o n) :
    Follows w'.db o n := by
  refine ⟨hn.1, ?_⟩
  intro m hm hlt
  obtain ⟨a, ha, hfacts⟩ := hn.2 m hm hlt
  exact ⟨a, h.mem_attempts ha, hfacts⟩

theorem failedUnder (h : Frame own w w') {id o : String} (hf : FailedUnder w.db id o) :
    FailedUnder w'.db id o := by
  obtain ⟨a, ha, hfacts⟩ := hf
  exact ⟨a, h.mem_attempts ha, hfacts⟩

end Frame

theorem nodup_map_concat {α : Type} {f : α → String} {xs : List α} {x : α}
    (hxs : (xs.map f).Nodup) (hnew : ∀ y ∈ xs, f y ≠ f x) : ((xs ++ [x]).map f).Nodup := by
  rw [List.map_append, List.nodup_append]
  refine ⟨hxs, List.nodup_singleton _, ?_⟩
  intro a ha b hb
  obtain ⟨y, hy, rfl⟩ := List.mem_map.mp ha
  rw [List.mem_singleton.mp hb]
  exact hnew y hy

namespace Valid

variable {own : Set String} {w w' : World}

theorem fresh (rules : Table EnrichmentRule EnrichmentRule.ruleId) :
    Valid (World.fresh rules) where
  ids := IdsIssued.fresh rules
  oneSubmission := List.nodup_nil
  oneAttempt := List.nodup_nil
  oneDeadLetter := List.nodup_nil
  agreed := Agreed.fresh rules
  numbers _ h := absurd h List.not_mem_nil
  success _ h := absurd h List.not_mem_nil
  failure _ h := absurd h List.not_mem_nil
  deadLetter _ h := absurd h List.not_mem_nil
  marks _ h := absurd h List.not_mem_nil
  deliveries _ h := absurd h List.not_mem_nil

theorem issue (h : Valid w) {id : String} (huuid : isUuid id = true) : Valid (w.issue id) :=
  { h with
    ids := {
      uuid := by
        intro x hx
        rcases List.mem_append.mp hx with hx | hx
        · exact h.ids.uuid x hx
        · rwa [List.mem_singleton.mp hx]
      attempts := fun a ha => List.mem_append_left _ (h.ids.attempts a ha)
      messages := by
        intro m hm
        obtain ⟨x, hx, hform⟩ := h.ids.messages m hm
        exact ⟨x, List.mem_append_left _ hx, hform⟩
      deadLetter := fun i hi => List.mem_append_left _ (h.ids.deadLetter i hi)
      submissions := fun x hx => List.mem_append_left _ (h.ids.submissions x hx) } }

theorem submit (h : Valid w) {x : Submission} (hissued : x.correlationId ∈ w.issued)
    (hnew : ∀ y ∈ w.submissions, y.correlationId ≠ x.correlationId) :
    Valid { w with submissions := w.submissions ++ [x] } :=
  { h with
    ids := { h.ids with
      submissions := by
        intro y hy
        rcases List.mem_append.mp hy with hy | hy
        · exact h.ids.submissions y hy
        · rwa [List.mem_singleton.mp hy] }
    oneSubmission := nodup_map_concat h.oneSubmission hnew
    success := h.success.extend (fun _ hy => List.mem_append_left _ hy) fun _ hm => Or.inl hm
    failure := by
      intro a ha hs
      obtain ⟨y, hy, hfacts⟩ := h.failure a ha hs
      exact ⟨y, List.mem_append_left _ hy, hfacts⟩ }

theorem record (h : Valid w) {r : ResultRecord} {db : Database} (hrec : Recorded r w.db db)
    (hframe : Frame own w { w with db := db }) (hissued : r.correlationId ∈ w.issued)
    (hnew : ∀ a ∈ w.db.attempts, a.correlationId ≠ r.correlationId)
    (hnumber : Follows w.db r.orderId r.attemptNumber) (hbacked : Backed w r) :
    Valid { w with db := db } := by
  have hstored := h.ids.stored.preserve_recorded hrec hissued
  refine ⟨⟨h.ids.uuid, hstored.attempts, hstored.messages, hstored.deadLetter, h.ids.submissions⟩,
    h.oneSubmission, ?_, ?_, h.agreed.preserve_recorded hrec, ?_, ?_, ?_, ?_, ?_, ?_⟩
  · show (db.attempts.map (·.correlationId)).Nodup
    rw [hrec.attempts]
    exact nodup_map_concat h.oneAttempt hnew
  · show (db.deadLetter.map (·.correlationId)).Nodup
    rw [hrec.deadLetter]
    exact h.oneDeadLetter
  · intro a ha
    rcases hrec.mem_attempts.mp ha with ha | rfl
    · exact hframe.follows (h.numbers a ha)
    · exact hframe.follows hnumber
  · refine h.success.extend (fun _ hx => hx) fun m hm => ?_
    rcases hrec.mem_outbox.mp hm with hm | rfl
    · exact Or.inl hm
    · right
      cases hs : r.success with
      | false => exact Or.inl (by simp [ResultRecord.message, hs])
      | true =>
        rw [Backed, hs, if_pos rfl] at hbacked
        rcases hbacked with hacc | hno
        · exact Or.inr (Or.inr ⟨r.correlationId, rfl, hacc⟩)
        · exact Or.inr (Or.inl hno)
  · intro a ha hstatus
    rcases hrec.mem_attempts.mp ha with ha | rfl
    · exact h.failure a ha hstatus
    · cases hs : r.success with
      | true => simp [ResultRecord.attempt, hs] at hstatus
      | false =>
        rw [Backed, hs, if_neg Bool.false_ne_true] at hbacked
        exact hbacked
  · intro i hi
    have hi : i ∈ db.deadLetter := hi
    rw [hrec.deadLetter] at hi
    exact hframe.failedUnder (h.deadLetter i hi)
  · intro m hm hstatus
    rcases hrec.mem_outbox.mp hm with hm | rfl
    · exact h.marks m hm hstatus
    · exact absurd rfl hstatus
  · exact fun d hd => hframe.messages _ (h.deliveries d hd)

/-- What is said of the attempts, on tables with the same attempts. -/
theorem same_attempts (h : Valid w) {db : Database} (hsame : db.attempts = w.db.attempts) :
    (db.attempts.map (·.correlationId)).Nodup ∧
      (∀ a ∈ db.attempts, Follows db a.orderId a.attemptNumber) ∧
      ∀ a ∈ db.attempts, a.status = .FAILED →
        ∃ x ∈ w.submissions, x.correlationId = a.correlationId ∧ x.orderId = a.orderId := by
  unfold Follows
  rw [hsame]
  exact ⟨h.oneAttempt, h.numbers, h.failure⟩

theorem giveUp (h : Valid w) {r : DeadLetterRecord} {db : Database}
    (hdead : DeadLettered r w.db db) (hframe : Frame own w { w with db := db })
    (hnew : ∀ i ∈ w.db.deadLetter, i.correlationId ≠ r.correlationId)
    (hissued : r.correlationId ∈ w.issued)
    (hfailed : FailedUnder w.db r.correlationId r.orderId) : Valid { w with db := db } := by
  have hstored := h.ids.stored.preserve_deadLettered hdead hissued
  obtain ⟨honce, hnumbers, hfailures⟩ := h.same_attempts hdead.attempts
  refine ⟨⟨h.ids.uuid, hstored.attempts, hstored.messages, hstored.deadLetter, h.ids.submissions⟩,
    h.oneSubmission, honce, ?_, h.agreed.preserve_deadLettered hdead, hnumbers, ?_, hfailures, ?_,
    ?_, ?_⟩
  · show (db.deadLetter.map (·.correlationId)).Nodup
    rw [hdead.deadLetter]
    exact nodup_map_concat h.oneDeadLetter hnew
  · refine h.success.extend (fun _ hx => hx) fun m hm => ?_
    rcases hdead.mem_outbox.mp hm with hm | rfl
    · exact Or.inl hm
    · exact Or.inr (Or.inl nofun)
  · intro i hi
    rcases hdead.mem_deadLetter.mp hi with hi | rfl
    · exact hframe.failedUnder (h.deadLetter i hi)
    · exact hframe.failedUnder hfailed
  · intro m hm hstatus
    rcases hdead.mem_outbox.mp hm with hm | rfl
    · exact h.marks m hm hstatus
    · exact absurd rfl hstatus
  · exact fun d hd => hframe.messages _ (h.deliveries d hd)

theorem deliver (h : Valid w) {d : Delivery} (hrow : w.db.statusOf d.messageId ≠ none) :
    Valid { w with deliveries := w.deliveries ++ [d] } :=
  { h with
    ids := { h.ids with }
    marks := fun m hm hstatus => List.mem_append_left _ (h.marks m hm hstatus)
    deliveries := by
      intro x hx
      rcases List.mem_append.mp hx with hx | hx
      · exact h.deliveries x hx
      · rwa [List.mem_singleton.mp hx] }

/-- A row that an execution has marked has what the sink answered. -/
theorem delivery_of_marked {c : PublishCall} {ms : List OutboxMessage} {db : Database}
    (hmarked : Marked c ms w.db db) (hsent : ∀ m ∈ ms, c.delivery m ∈ w.deliveries)
    {m : OutboxMessage} (hm : m ∈ db.outbox.rows) (hin : m.messageId ∈ ms.map (·.messageId)) :
    ⟨m.messageId, decide (m.status = .PUBLISHED)⟩ ∈ w.deliveries := by
  have hself : db.statusOf m.messageId = some m.status := statusOf_of_mem hm
  obtain ⟨x, hx, hid⟩ := List.mem_map.mp hin
  have hrow : w.db.statusOf x.messageId ≠ none := by
    refine fun hnone => ?_
    rw [hid, ← hmarked.known, hself] at hnone
    cases hnone
  have hset := hmarked.marked x hx hrow
  rw [hid, hself] at hset
  have hdelivery : c.delivery x = ⟨m.messageId, decide (m.status = .PUBLISHED)⟩ := by
    rw [Option.some.inj hset, ← hid]
    unfold PublishCall.delivery PublishCall.outcome
    cases c.accepts x <;> rfl
  rw [← hdelivery]
  exact hsent x hx

theorem mark (h : Valid w) {c : PublishCall} {ms : List OutboxMessage} {db : Database}
    (hremarked : Remarked w.db db) (hframe : Frame own w { w with db := db })
    (hmarked : Marked c ms w.db db) (hsent : ∀ m ∈ ms, c.delivery m ∈ w.deliveries) :
    Valid { w with db := db } := by
  obtain ⟨f, hrows, hf⟩ := hremarked.outbox
  have hmessage : ∀ m ∈ db.outbox.rows, ∃ m₀ ∈ w.db.outbox.rows, m₀.messageId = m.messageId ∧
      m₀.eventType = m.eventType ∧ m₀.aggregateId = m.aggregateId ∧
      m₀.payloadJson = m.payloadJson := by
    intro m hm
    rw [hrows] at hm
    obtain ⟨m₀, hm₀, rfl⟩ := List.mem_map.mp hm
    obtain ⟨hid, htype, hagg, hpayload⟩ := hf m₀
    exact ⟨m₀, hm₀, hid.symm, htype.symm, hagg.symm, hpayload.symm⟩
  obtain ⟨honce, hnumbers, hfailures⟩ := h.same_attempts hremarked.attempts
  refine ⟨⟨h.ids.uuid, ?_, ?_, ?_, h.ids.submissions⟩, h.oneSubmission, honce, ?_,
    h.agreed.preserve_remarked hremarked, hnumbers, ?_, hfailures, ?_, ?_, ?_⟩
  · show ∀ a ∈ db.attempts, _
    rw [hremarked.attempts]
    exact h.ids.attempts
  · intro m hm
    obtain ⟨m₀, hm₀, hid, _, hagg, _⟩ := hmessage m hm
    rw [← hid, ← hagg]
    exact h.ids.messages m₀ hm₀
  · show ∀ i ∈ db.deadLetter, _
    rw [hremarked.deadLetter]
    exact h.ids.deadLetter
  · show (db.deadLetter.map (·.correlationId)).Nodup
    rw [hremarked.deadLetter]
    exact h.oneDeadLetter
  · intro m hm htype hevent
    obtain ⟨m₀, hm₀, hid, ht, hagg, hpayload⟩ := hmessage m hm
    rw [← hid, ← hagg]
    rw [← ht] at htype
    refine h.success m₀ hm₀ htype ?_
    rwa [IsNoMatchEvent, hpayload]
  · intro i hi
    have hi : i ∈ db.deadLetter := hi
    rw [hremarked.deadLetter] at hi
    exact hframe.failedUnder (h.deadLetter i hi)
  · intro m hm hstatus
    by_cases hin : m.messageId ∈ ms.map (·.messageId)
    · exact delivery_of_marked hmarked hsent hm hin
    · have hself : db.statusOf m.messageId = some m.status := statusOf_of_mem hm
      have hold := hmarked.other m.messageId hin
      rw [hself] at hold
      obtain ⟨m₀, hm₀, hid, _⟩ := hmessage m hm
      rw [← hid, statusOf_of_mem hm₀] at hold
      rw [Option.some.inj hold, ← hid]
      refine h.marks m₀ hm₀ ?_
      rwa [← Option.some.inj hold]
  · exact fun d hd => hframe.messages _ (h.deliveries d hd)

/-- **Every step** keeps it. -/
theorem does (h : Valid w) (hd : Does own w w') : Valid w' := by
  have hframe := hd.frame
  cases hd with
  | nothing => exact h
  | issues id hown huuid hnew => exact h.issue huuid
  | submits x hown hissued hnew => exact h.submit hissued hnew
  | records r db hown hrec hissued hnew hnumber hbacked =>
    exact h.record hrec hframe hissued hnew hnumber hbacked
  | givesUp r db hown hdead hnew hissued hfailed => exact h.giveUp hdead hframe hnew hissued hfailed
  | delivers d hrow => exact h.deliver hrow
  | marks c ms db hremarked hmarked hsent => exact h.mark hremarked hframe hmarked hsent

end Valid

end Fleet

end RulesEnrichment
