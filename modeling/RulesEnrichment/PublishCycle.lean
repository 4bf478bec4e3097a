import RulesEnrichment.ProcessStep
import RulesEnrichment.Lib.Machine
import Mathlib.Algebra.Order.Floor.Div
import Mathlib.Data.Nat.Basic

/-! # Publish cycles

    One call of `PublishOutboxMessagesUseCase.execute` in the world it is
    made in, and what it does if its commit goes through (`CycleEffect`):
    it takes up the oldest pending messages, gives each to the sink once,
    and settles exactly their rows. `publish_cycles` adds what a sequence
    of such calls comes to: the backlog is gone after as many calls as
    batches fit into it. -/

namespace RulesEnrichment

open StepMachine StableSort KeyedTable UnitOfWork

/-- The messages that wait to be published. -/
def Database.pending (db : Database) : List OutboxMessage :=
  db.outbox.rows.filter (·.status = .PENDING)

theorem mem_pending {db : Database} {m : OutboxMessage} :
    m ∈ db.pending ↔ m ∈ db.outbox.rows ∧ m.status = .PENDING := by
  simp [Database.pending]

theorem nodup_pending (db : Database) : db.pending.Nodup :=
  (db.outbox.nodup.of_map _).filter _

/-! ## One cycle -/

structure PublishCycle where
  world : World
  call : PublishCall

namespace PublishCycle

variable (p : PublishCycle)

/-- The world the call leaves. -/
def after : World := (publishOutbox p.call p.world).2

/-- What the call gives to the sink, in this order. -/
def passed : List Delivery := p.after.deliveries.drop p.world.deliveries.length

/-- The call returned, so its commit went through. -/
def committed : Bool := (publishOutbox p.call p.world).1.isOk

/-- The count the call returned, if it did. -/
def returned : Nat :=
  match (publishOutbox p.call p.world).1 with
  | .ok n => n
  | .error _ => 0

theorem passed_eq : p.passed = (p.call.batch p.world.db).map p.call.delivery := by
  unfold passed after
  rcases publishOutbox_cases p.call p.world with ⟨e, _, hres⟩ | ⟨db, _, _, hres⟩ <;>
    simp [hres, World.delivered]

/-- A cycle either changes no row, or settles its batch and returns the
    number of messages the sink accepted. -/
theorem committed_cases :
    (p.committed = false ∧ p.returned = 0 ∧ p.after = p.world.delivered p.call p.world.db) ∨
    ∃ db, p.committed = true ∧ Published p.call p.world.db db ∧
      p.returned = ((p.call.batch p.world.db).filter p.call.accepts).length ∧
      p.after = p.world.delivered p.call db := by
  unfold committed returned after
  rcases publishOutbox_cases p.call p.world with ⟨e, _, hres⟩ | ⟨db, _, hpub, hres⟩
  · left
    rw [hres]
    exact ⟨rfl, rfl, rfl⟩
  · right
    refine ⟨db, ?_⟩
    rw [hres]
    exact ⟨rfl, hpub, rfl, rfl⟩

end PublishCycle

/-! ## What a cycle takes up -/

namespace PublishCall

variable (c : PublishCall) (db : Database)

/-- The rows that are scanned are the pending ones. -/
theorem scanned_perm :
    ((c.scan.run db.outbox.rows).filter (·.status = .PENDING)).Perm db.pending :=
  (c.scan.perm _).filter _

theorem length_batch : (c.batch db).length = min c.batchSize db.pending.length := by
  unfold batch OutboxRepository.listPending
  rw [List.length_take, length_sortBy]
  exact congrArg _ (c.scanned_perm db).length_eq

theorem batch_pairwise : (c.batch db).Pairwise fun m m' => m.createdAt ≤ m'.createdAt :=
  (sortBy_pairwise (fun m : OutboxMessage => m.createdAt.instant) _).sublist (List.take_sublist _ _)

/-- No pending message that is left out is older. -/
theorem batch_oldest {m m' : OutboxMessage} (hm : m ∈ c.batch db) (hm' : m' ∈ db.pending)
    (hnot : m' ∉ c.batch db) : m.createdAt ≤ m'.createdAt := by
  have hscanned : m' ∈ (c.scan.run db.outbox.rows).filter (·.status = .PENDING) :=
    (c.scanned_perm db).mem_iff.mpr hm'
  exact le_of_mem_take_sortBy (fun m : OutboxMessage => m.createdAt.instant) hm hscanned hnot

theorem mem_pending_of_batch {m : OutboxMessage} (hm : m ∈ c.batch db) : m ∈ db.pending :=
  mem_pending.mpr (c.mem_batch hm)

end PublishCall

/-- What becomes of a row if the cycle takes up `batch`. -/
def PublishCycle.rowAfter (p : PublishCycle) (batch : List OutboxMessage) (m : OutboxMessage) :
    OutboxMessage :=
  if m.messageId ∈ batch.map (·.messageId) then
    if (p.call.sink m).isOk then
      { m with status := .PUBLISHED, publishedAt := some (p.call.markedAt m.messageId) }
    else { m with status := .FAILED }
  else m

/-- The effect of a cycle whose commit goes through: `batch` is what it
    takes up. -/
structure CycleEffect (p : PublishCycle) (batch : List OutboxMessage) : Prop where
  /-- Each goes to the sink once, in the order of the batch. -/
  passed : p.passed = batch.map fun m => ⟨m.messageId, (p.call.sink m).isOk⟩
  once : (batch.map (·.messageId)).Nodup
  length : batch.length = min p.call.batchSize p.world.db.pending.length
  pending : ∀ m ∈ batch, m ∈ p.world.db.pending
  ascending : batch.Pairwise fun m m' => m.createdAt ≤ m'.createdAt
  oldest : ∀ m ∈ batch, ∀ m' ∈ p.world.db.pending, m' ∉ batch → m.createdAt ≤ m'.createdAt
  rows : p.after.db.outbox.rows = p.world.db.outbox.rows.map (p.rowAfter batch)
  returned : (publishOutbox p.call p.world).1 =
    .ok (batch.filter fun m => (p.call.sink m).isOk).length
  /-- Nothing else changes. -/
  frame : p.after = { p.world with
    db := { p.world.db with outbox := p.after.db.outbox }
    deliveries := p.world.deliveries ++ p.passed }

theorem PublishCycle.effect (p : PublishCycle) (h : p.committed = true) :
    CycleEffect p (p.call.batch p.world.db) := by
  have hpassed := p.passed_eq
  obtain ⟨db, hpub, hres⟩ : ∃ db, Published p.call p.world.db db ∧ publishOutbox p.call p.world =
      (.ok ((p.call.batch p.world.db).filter p.call.accepts).length, p.world.delivered p.call db) := by
    rcases publishOutbox_cases p.call p.world with ⟨e, _, hres⟩ | ⟨db, _, hpub, hres⟩
    · unfold PublishCycle.committed at h
      rw [hres] at h
      exact absurd h Bool.false_ne_true
    · exact ⟨db, hpub, hres⟩
  have hafter : p.after = p.world.delivered p.call db := congrArg Prod.snd hres
  refine ⟨hpassed, p.call.nodup_batch _, p.call.length_batch _, fun m hm => ?_,
    p.call.batch_pairwise _, fun m hm m' hm' => p.call.batch_oldest _ hm hm', ?_, ?_, ?_⟩
  · exact p.call.mem_pending_of_batch _ hm
  · rw [hafter]
    show db.outbox.rows = _
    rw [hpub.outbox]
    apply List.map_congr_left
    intro m _
    simp only [PublishCall.takes, decide_eq_true_eq]
    rfl
  · rw [hres]
    rfl
  · rw [hafter, hpassed]
    -- the other tables are those of the world before
    have hdb : db = { p.world.db with outbox := db.outbox } := hpub.eq
    show _ = { p.world with
      db := { p.world.db with outbox := db.outbox }
      deliveries := p.world.deliveries ++ (p.call.batch p.world.db).map p.call.delivery }
    rw [← hdb]
    rfl

/-- A cycle is rolled back and leaves the table alone, or it settles its
    batch. -/
theorem PublishCycle.rollback_or_effect (p : PublishCycle) :
    (p.committed = false ∧ p.returned = 0 ∧ p.after.db = p.world.db) ∨
      (p.committed = true ∧ CycleEffect p (p.call.batch p.world.db)) := by
  rcases p.committed_cases with ⟨hno, hreturned, hafter⟩ | ⟨_, hcommitted, _⟩
  · left
    rw [hafter]
    exact ⟨hno, hreturned, rfl⟩
  · exact Or.inr ⟨hcommitted, p.effect hcommitted⟩

/-- The id and the time of a row outlive a cycle. -/
theorem PublishCycle.rowAfter_keeps (p : PublishCycle) (batch : List OutboxMessage)
    (m : OutboxMessage) : (p.rowAfter batch m).messageId = m.messageId ∧
      (p.rowAfter batch m).createdAt = m.createdAt := by
  unfold PublishCycle.rowAfter
  split
  · split <;> exact ⟨rfl, rfl⟩
  · exact ⟨rfl, rfl⟩

/-! ## Cycle after cycle -/

/-- Rewriting the elements of one kind into ones the filter drops. -/
theorem filter_map_ite {α : Type} (taken keep : α → Bool) (f : α → α)
    (hf : ∀ a, keep (f a) = false) (l : List α) :
    (l.map fun a => if taken a then f a else a).filter keep =
      (l.filter keep).filter fun a => !taken a := by
  induction l with
  | nil => rfl
  | cons a l ih =>
    rw [List.map_cons, List.filter_cons, List.filter_cons, ih]
    by_cases ht : taken a = true
    · rw [if_pos ht, hf a]
      by_cases hk : keep a = true <;> simp [hk, ht]
    · rw [if_neg ht]
      by_cases hk : keep a = true <;> simp [hk, ht]

section

variable {p : PublishCycle} {batch : List OutboxMessage}

/-- The backlog loses the batch. -/
theorem CycleEffect.pending_after (h : CycleEffect p batch) : p.after.db.pending =
    p.world.db.pending.filter fun m => !decide (m.messageId ∈ batch.map (·.messageId)) := by
  have hrows := filter_map_ite (fun m => decide (m.messageId ∈ batch.map (·.messageId)))
    (fun m => decide (m.status = .PENDING)) p.call.settle
    (fun m => decide_eq_false (p.call.status_settle m)) p.world.db.outbox.rows
  show p.after.db.outbox.rows.filter _ = _
  rw [h.rows]
  simp only [decide_eq_true_eq] at hrows
  exact hrows

/-- A row is in the batch exactly if its id is. -/
theorem CycleEffect.mem_batch_iff (h : CycleEffect p batch) {m : OutboxMessage}
    (hm : m ∈ p.world.db.outbox.rows) : m.messageId ∈ batch.map (·.messageId) ↔ m ∈ batch := by
  rw [List.mem_map]
  refine ⟨fun ⟨x, hx, hid⟩ => ?_, fun hin => ⟨m, hin, rfl⟩⟩
  have hrow := (mem_pending.mp (h.pending x hx)).1
  rw [← Table.eq_of_key _ hrow hm hid]
  exact hx

/-- The rows under the ids of the batch are the batch, in some order. -/
theorem CycleEffect.taken_perm (h : CycleEffect p batch) {l : List OutboxMessage} (hnodup : l.Nodup)
    (hrows : ∀ m ∈ l, m ∈ p.world.db.outbox.rows) (hbatch : ∀ m ∈ batch, m ∈ l) :
    (l.filter fun m => decide (m.messageId ∈ batch.map (·.messageId))).Perm batch := by
  refine (List.perm_ext_iff_of_nodup (hnodup.filter _) (h.once.of_map _)).mpr ?_
  intro m
  rw [List.mem_filter, decide_eq_true_eq]
  constructor
  · intro ⟨hm, hid⟩
    exact (h.mem_batch_iff (hrows m hm)).mp hid
  · intro hin
    exact ⟨hbatch m hin, List.mem_map.mpr ⟨m, hin, rfl⟩⟩

theorem CycleEffect.length_pending (h : CycleEffect p batch) :
    p.after.db.pending.length = p.world.db.pending.length - p.call.batchSize := by
  have htaken := h.taken_perm (nodup_pending _) (fun m hm => (mem_pending.mp hm).1) h.pending
  have hsplit := List.length_eq_length_filter_add (l := p.world.db.pending)
    fun m => decide (m.messageId ∈ batch.map (·.messageId))
  have hlen := htaken.length_eq
  have hbatch := h.length
  rw [h.pending_after]
  omega

end

namespace PublishCycles

/-- Publish calls one after another, each with a commit that succeeds. -/
def machine : Machine World PublishCall where
  init _ := True
  guard w c := (publishOutbox c w).1.isOk = true
  step w c := (publishOutbox c w).2

/-- The backlog shrinks by a batch with every call. -/
theorem length_pending_run {b : ℕ} {w : World} {cs : List PublishCall} (hl : machine.Legal w cs)
    (hb : ∀ c ∈ cs, c.batchSize = b) :
    (machine.run w cs).db.pending.length = w.db.pending.length - cs.length * b := by
  induction cs generalizing w with
  | nil => simp
  | cons c cs ih =>
    obtain ⟨hcommitted, hl'⟩ := (machine.legal_cons w c cs).mp hl
    have hrest := ih hl' fun c' hc' => hb c' (List.mem_cons_of_mem _ hc')
    have hstep : (machine.step w c).db.pending.length = w.db.pending.length - c.batchSize :=
      (PublishCycle.effect ⟨w, c⟩ hcommitted).length_pending
    have hsize := hb c List.mem_cons_self
    rw [Machine.run_cons, hrest, hstep, hsize, List.length_cons, Nat.succ_mul]
    omega

/-- **Publish cycles.** Every call that commits takes up the oldest pending
    messages, as many as its batch size admits, gives each to the sink
    once, oldest first, and settles exactly these. With batches of `b`, as
    many calls as batches fit into the backlog leave nothing pending. -/
theorem publish_cycles (w : World) {cs : List PublishCall} (hl : machine.Legal w cs) :
    (∀ p ∈ machine.visits w cs, ∃ batch, CycleEffect ⟨p.1, p.2⟩ batch) ∧
      ∀ b, 1 ≤ b → (∀ c ∈ cs, c.batchSize = b) → w.db.pending.length ⌈/⌉ b ≤ cs.length →
        (machine.run w cs).db.pending = [] := by
  refine ⟨fun p hp => ⟨_, PublishCycle.effect ⟨p.1, p.2⟩ (hl p hp)⟩, ?_⟩
  intro b hpos hb henough
  have hlen := length_pending_run hl hb
  have hle : w.db.pending.length ≤ b * cs.length := (ceilDiv_le_iff_le_mul hpos).mp henough
  rw [Nat.mul_comm] at hle
  exact List.eq_nil_of_length_eq_zero (by omega)

/-! ### Two events, one at a time

    The newer one stands first in the table, and the sink refuses it. -/

def waiting (messageId : String) (createdAt : DateTime) : OutboxMessage where
  messageId := messageId
  aggregateType := "Order"
  aggregateId := "ORD-1"
  eventType := .OrderEnrichmentSucceeded
  payloadJson := .dict [("event", .str "NoRulesMatched"), ("order_id", .str "ORD-1")]
  status := .PENDING
  createdAt := createdAt
  publishedAt := none

def backlog : World :=
  { World.fresh Sample.rules with
    db := { Database.fresh Sample.rules with
      outbox := ⟨[waiting "outbox-2" Sample.ten, waiting "outbox-1" Sample.nine], by decide⟩ } }

def single : PublishCall where
  batchSize := 1
  scan := .physical
  sink m := if m.messageId = "outbox-2"
    then .error ⟨.other "ConnectionError", "broker unreachable"⟩ else .ok ()
  markedAt _ := Sample.eleven
  commitFault := none

example : (machine.run backlog [single, single]).deliveries =
    [⟨"outbox-1", true⟩, ⟨"outbox-2", false⟩] := by decide

theorem publish_cycles_backlog :
    (∀ p ∈ machine.visits backlog [single, single], ∃ batch, CycleEffect ⟨p.1, p.2⟩ batch) ∧
      ∀ b, 1 ≤ b → (∀ c ∈ [single, single], c.batchSize = b) →
        backlog.db.pending.length ⌈/⌉ b ≤ [single, single].length →
        (machine.run backlog [single, single]).db.pending = [] := by
  refine publish_cycles backlog ?_
  rw [Machine.legal_cons, Machine.legal_cons]
  refine ⟨?_, ?_, fun p hp => absurd hp List.not_mem_nil⟩
  · show (publishOutbox single backlog).1.isOk = true
    decide
  · show (publishOutbox single (publishOutbox single backlog).2).1.isOk = true
    decide

end PublishCycles

end RulesEnrichment
