import RulesEnrichment.Lib.Machine
import RulesEnrichment.Effects
import RulesEnrichment.ProcessStep

/-! # Delivery of the outbox

    Events are enqueued as `PENDING` and published in batches. A message
    the sink refuses is marked `FAILED`, and `list_pending` selects on
    `PENDING` alone, so no later publish call takes it up. `nothingLost_iff`
    says exactly which runs lose no event. -/

namespace RulesEnrichment

open StepMachine UnitOfWork StableSort KeyedTable

namespace Outbox

/-- A use case that touches the outbox, and what the environment does. -/
inductive Input where
  | persist (fault : Option PyErr) (r : ResultRecord)
  | moveToDeadLetter (fault : Option PyErr) (r : DeadLetterRecord)
  | publish (c : PublishCall)

def step (w : World) : Input → World
  | .persist fault r => (w.transact (persistResult fault r w.db)).2
  | .moveToDeadLetter fault r => (w.transact (RulesEnrichment.moveToDeadLetter fault r w.db)).2
  | .publish c => (publishOutbox c w).2

/-- The use cases one after another, in any order. -/
def machine : Machine World Input where
  init w := ∃ rules, w = World.fresh rules
  guard _ _ := True
  step := step

theorem legal (w : World) (is : List Input) : machine.Legal w is := fun _ _ => trivial

/-! ## What a step does to the outbox -/

/-- A pending message was enqueued, or nothing happened. -/
theorem enqueue_cases {w : World} {i : Input} (hi : ∀ c, i ≠ .publish c) :
    (step w i).deliveries = w.deliveries ∧
      ((step w i).db.outbox = w.db.outbox ∨
        ∃ m, (step w i).db.outbox.rows = w.db.outbox.rows ++ [m] ∧ m.status = .PENDING ∧
          m.publishedAt = none) := by
  cases i with
  | publish c => exact absurd rfl (hi c)
  | persist fault r =>
    simp only [step]
    rcases persistResult_cases fault r w.db with ⟨e, he, _⟩ | ⟨db, hok, hrec, _⟩
    · rw [he]
      exact ⟨rfl, Or.inl rfl⟩
    · rw [hok]
      exact ⟨rfl, Or.inr ⟨r.message, hrec.outbox, rfl, rfl⟩⟩
  | moveToDeadLetter fault r =>
    simp only [step]
    rcases moveToDeadLetter_cases fault r w.db with ⟨e, he⟩ | ⟨db, hok, hdead, _⟩
    · rw [he]
      exact ⟨rfl, Or.inl rfl⟩
    · rw [hok]
      exact ⟨rfl, Or.inr ⟨r.message, hdead.outbox, rfl, rfl⟩⟩

/-! ## Which messages can still be delivered -/

/-- The sink has accepted the message at least once. -/
def Delivered (w : World) (m : OutboxMessage) : Prop := ⟨m.messageId, true⟩ ∈ w.deliveries

/-- A publish call with a large enough batch takes the message up. -/
def Deliverable (w : World) (m : OutboxMessage) : Prop :=
  ∀ scan, ∃ limit, m ∈ OutboxRepository.listPending (Session.enter w.db) scan limit

/-- Every message was delivered or can still be delivered. -/
def NothingLost (w : World) : Prop := ∀ m ∈ w.db.outbox.rows, Delivered w m ∨ Deliverable w m

theorem deliverable_iff {w : World} {m : OutboxMessage} (hm : m ∈ w.db.outbox.rows) :
    Deliverable w m ↔ m.status = .PENDING := by
  constructor
  · -- one scan order is enough: the filter is on the status alone
    intro h
    obtain ⟨limit, hlimit⟩ := h .physical
    have hsorted := List.mem_of_mem_take hlimit
    rw [mem_sortBy] at hsorted
    simpa using (List.mem_filter.mp hsorted).2
  · intro hpending scan
    -- a limit that the whole table does not exceed
    have hin : m ∈ (scan.run w.db.outbox.rows).filter (·.status = .PENDING) :=
      List.mem_filter.mpr ⟨(scan.perm _).mem_iff.mpr hm, by simpa using hpending⟩
    refine ⟨((scan.run w.db.outbox.rows).filter (·.status = .PENDING)).length, ?_⟩
    unfold OutboxRepository.listPending
    rw [List.take_of_length_le, mem_sortBy]
    · exact hin
    · rw [length_sortBy]
      exact le_refl _

theorem nothingLost_iff_pending {w : World} :
    NothingLost w ↔ ∀ m ∈ w.db.outbox.rows, Delivered w m ∨ m.status = .PENDING := by
  constructor
  · intro h m hm
    exact (h m hm).imp_right (deliverable_iff hm).mp
  · intro h m hm
    exact (h m hm).imp_right (deliverable_iff hm).mpr

/-! ## Which runs lose nothing -/

/-- The step does not mark a message as failed that the sink never
    accepted: it publishes nothing, its commit faults, or the sink accepts
    every message of the batch that it has not accepted before. -/
def LosesNothing (w : World) : Input → Prop
  | .persist _ _ => True
  | .moveToDeadLetter _ _ => True
  | .publish c => c.commitFault ≠ none ∨
      ∀ m ∈ c.batch w.db, c.accepts m = false → Delivered w m

theorem delivered_settle {w : World} {c : PublishCall} {m : OutboxMessage} :
    Delivered w (c.settle m) ↔ Delivered w m := by
  unfold Delivered
  rw [c.messageId_settle]

/-- What a publish call delivers: the messages of its batch that the sink
    accepts. -/
theorem delivered_publish_iff {w : World} {c : PublishCall} {db : Database} {m : OutboxMessage}
    (hm : m ∈ w.db.outbox.rows) :
    Delivered (w.delivered c db) m ↔
      Delivered w m ∨ (m ∈ c.batch w.db ∧ c.accepts m = true) := by
  unfold Delivered World.delivered
  rw [List.mem_append, List.mem_map]
  refine or_congr Iff.rfl ?_
  constructor
  · intro h
    obtain ⟨x, hx, hdelivery⟩ := h
    obtain ⟨hid, hacc⟩ := Delivery.mk.inj hdelivery
    have heq : x = m := Table.eq_of_key _ (c.mem_batch hx).1 hm hid
    rw [← heq]
    exact ⟨hx, hacc⟩
  · intro h
    obtain ⟨hbatch, hacc⟩ := h
    refine ⟨m, hbatch, ?_⟩
    unfold PublishCall.delivery
    rw [hacc]

/-- A publish call that commits keeps every message exactly when it loses
    nothing. -/
theorem nothingLost_publish {w : World} {c : PublishCall} {db : Database}
    (hw : NothingLost w) (hpub : Published c w.db db) :
    NothingLost (w.delivered c db) ↔
      ∀ m ∈ c.batch w.db, c.accepts m = false → Delivered w m := by
  rw [nothingLost_iff_pending]
  have hrows : (w.delivered c db).db.outbox.rows =
      w.db.outbox.rows.map fun m => if c.takes w.db m.messageId then c.settle m else m := hpub.outbox
  constructor
  · intro h m hm hreject
    obtain ⟨hin, _⟩ := c.mem_batch hm
    have htakes : c.takes w.db m.messageId = true := (c.takes_iff hin).mpr hm
    have hsettled : c.settle m ∈ (w.delivered c db).db.outbox.rows := by
      rw [hrows]
      exact List.mem_map.mpr ⟨m, hin, if_pos htakes⟩
    rcases h _ hsettled with hdel | hpending
    · -- the delivery is an old one: this call's delivery of `m` was refused
      rcases (delivered_publish_iff hin).mp (delivered_settle.mp hdel) with hold | ⟨_, hacc⟩
      · exact hold
      · rw [hreject] at hacc
        cases hacc
    · exact absurd hpending (c.status_settle m)
  · intro h m' hm'
    rw [hrows] at hm'
    obtain ⟨m, hm, rfl⟩ := List.mem_map.mp hm'
    by_cases hbatch : m ∈ c.batch w.db
    · rw [if_pos ((c.takes_iff hm).mpr hbatch)]
      left
      rw [delivered_settle, delivered_publish_iff hm]
      cases hacc : c.accepts m with
      | false => exact Or.inl (h m hbatch hacc)
      | true => exact Or.inr ⟨hbatch, rfl⟩
    · -- a message outside the batch stays as it was
      rw [if_neg (mt (c.takes_iff hm).mp hbatch)]
      rcases nothingLost_iff_pending.mp hw m hm with hdel | hpending
      · exact Or.inl ((delivered_publish_iff hm).mpr (Or.inl hdel))
      · exact Or.inr hpending

/-- What keeps the rows and all deliveries keeps every message. -/
theorem nothingLost_of_rows {w w' : World} (hw : NothingLost w)
    (hrows : w'.db.outbox.rows = w.db.outbox.rows)
    (hdel : ∀ x ∈ w.deliveries, x ∈ w'.deliveries) : NothingLost w' := by
  rw [nothingLost_iff_pending] at hw ⊢
  intro m hm
  rw [hrows] at hm
  exact (hw m hm).imp_left (hdel _)

/-- Within one step. -/
theorem nothingLost_step {w : World} {i : Input} (hw : NothingLost w) :
    NothingLost (step w i) ↔ LosesNothing w i := by
  have henqueue : (∀ c, i ≠ .publish c) → NothingLost (step w i) := by
    intro hi
    obtain ⟨hdel, hsame | ⟨m, hrows, hpending, _⟩⟩ := enqueue_cases (w := w) hi
    · have hrows : (step w i).db.outbox.rows = w.db.outbox.rows := by rw [hsame]
      have hkeep : ∀ x ∈ w.deliveries, x ∈ (step w i).deliveries := by
        rw [hdel]
        exact fun x hx => hx
      exact nothingLost_of_rows hw hrows hkeep
    · -- the one new message is pending
      rw [nothingLost_iff_pending] at hw ⊢
      intro m' hm'
      unfold Delivered
      rw [hdel]
      rw [hrows, List.mem_append, List.mem_singleton] at hm'
      rcases hm' with hm' | rfl
      · exact hw m' hm'
      · exact Or.inr hpending
  cases i with
  | persist fault r => exact iff_of_true (henqueue (by simp)) trivial
  | moveToDeadLetter fault r => exact iff_of_true (henqueue (by simp)) trivial
  | publish c =>
    show NothingLost (publishOutbox c w).2 ↔ _
    rcases publishOutbox_cases c w with ⟨e, hfault, hres⟩ | ⟨db, hfault, hpub, hres⟩
    · -- a faulted commit rolls the marks back, but the deliveries happened
      rw [hres]
      refine iff_of_true ?_ (Or.inl (by simp [hfault]))
      exact nothingLost_of_rows hw rfl fun x hx => List.mem_append_left _ hx
    · rw [hres]
      have hiff := nothingLost_publish hw hpub
      simpa [LosesNothing, hfault] using hiff

/-- **Delivery.** From a fresh world, a run keeps every event in all its
    states exactly when each of its steps loses nothing. -/
theorem nothingLost_iff (rules : Table EnrichmentRule EnrichmentRule.ruleId) (is : List Input) :
    (∀ p ∈ machine.visits (World.fresh rules) is, NothingLost (machine.step p.1 p.2)) ↔
      ∀ p ∈ machine.visits (World.fresh rules) is, LosesNothing p.1 p.2 := by
  -- an empty outbox has lost nothing
  have hfresh : NothingLost (World.fresh rules) := by
    intro m hm
    cases hm
  exact machine.always_iff (fun _ => True) (fun _ _ _ _ => trivial)
    (fun w i _ hw _ => nothingLost_step hw) trivial hfresh (legal _ is)

/-! ### A lost event

    One event, one publish call, and the sink refuses it. -/

def sampleRecord : ResultRecord where
  orderId := "ORD-1"
  correlationId := Sample.correlationId
  attemptNumber := 1
  enrichmentHash := ""
  success := true
  now := Sample.nine
  eventPayload := .dict [("event", .str "NoRulesMatched"), ("order_id", .str "ORD-1")]

def refusedPublish : PublishCall where
  batchSize := 100
  scan := .physical
  sink _ := .error ⟨.other "ConnectionError", "broker unreachable"⟩
  markedAt _ := Sample.ten
  commitFault := none

theorem refused_event_lost :
    ¬ NothingLost (machine.run (World.fresh Sample.rules)
      [.persist none sampleRecord, .publish refusedPublish]) := by
  rw [nothingLost_iff_pending]
  intro h
  -- the only row of the outbox, as the publish call leaves it
  have hlost := h { sampleRecord.message with status := .FAILED } (List.mem_singleton.mpr rfl)
  rcases hlost with hdel | hpending
  · have hlog : (machine.run (World.fresh Sample.rules)
        [.persist none sampleRecord, .publish refusedPublish]).deliveries =
          [⟨sampleRecord.message.messageId, false⟩] := rfl
    unfold Delivered at hdel
    rw [hlog] at hdel
    simp at hdel
  · cases hpending

end Outbox

end RulesEnrichment
