import RulesEnrichment.Records
import RulesEnrichment.PublishCycle

/-! # The order of events

    An event carries the time at which the call that wrote it started, and
    publish calls take up events in the order of these times, whatever
    order the database chooses among equal ones. With a clock that does not
    go back, the times ascend along the outbox (`InOrder`), so events with
    different times are accepted in the order in which they were written. -/

namespace RulesEnrichment

open StepMachine KeyedTable

/-! ## What a call writes to the outbox -/

theorem DeadLettered.createdAt {r : DeadLetterRecord} {db db' : Database}
    (h : DeadLettered r db db') : ∃ m, db'.outbox.rows = db.outbox.rows ++ [m] ∧
      m.createdAt = r.now :=
  ⟨r.message, h.outbox, rfl⟩

/-- The events of a call have the time at which the call was made. -/
theorem ProcessCall.execute_events (uc : ProcessOrderUseCase) (c : ProcessCall) (w : World) :
    ∃ ms : List OutboxMessage, (c.execute uc w).2.db.outbox.rows = w.db.outbox.rows ++ ms ∧
      ∀ m ∈ ms, m.createdAt = c.now := by
  have hnothing : ∃ ms : List OutboxMessage, w.db.outbox.rows = w.db.outbox.rows ++ ms ∧
      ∀ m ∈ ms, m.createdAt = c.now :=
    ⟨[], (List.append_nil _).symm, fun m hm => absurd hm List.not_mem_nil⟩
  have hrecorded : ∀ (r : ResultRecord) (db : Database), r.now = c.now → Recorded r w.db db →
      ∃ ms : List OutboxMessage, db.outbox.rows = w.db.outbox.rows ++ ms ∧
        ∀ m ∈ ms, m.createdAt = c.now := by
    intro r db hnow hrec
    refine ⟨[r.message], hrec.outbox, ?_⟩
    intro m hm
    rw [List.mem_singleton.mp hm]
    exact hnow
  have hstep := c.execute_step uc w
  generalize (c.execute uc w).1 = res, (c.execute uc w).2 = w' at hstep ⊢
  rcases hstep with _ | _ | ⟨_, _, db, _, _, _, hrec, _⟩ | _ | ⟨_, _, _, hstep⟩
  · exact hnothing
  · exact hnothing
  · exact hrecorded _ db rfl hrec
  · exact hnothing
  · rcases hstep with ⟨db, _, hrec, _⟩ | _ | ⟨_, _, db, _, hrec, _, _⟩ |
      ⟨_, _, _, db, _, hrec, _, _, _⟩ | ⟨_, _, db, db', _, hrec, _, _, hdead, _⟩
    · exact hrecorded _ db rfl hrec
    · exact hnothing
    · exact hrecorded _ db rfl hrec
    · exact hrecorded _ db rfl hrec
    · -- the failure, then the move to the dead letter
      obtain ⟨ms, hrows, hnow⟩ := hrecorded _ db rfl hrec
      obtain ⟨m, hrows', hm⟩ := hdead.createdAt
      refine ⟨ms ++ [m], ?_, ?_⟩
      · show db'.outbox.rows = _
        rw [hrows', hrows, List.append_assoc]
      · intro x hx
        rcases List.mem_append.mp hx with hx | hx
        · exact hnow x hx
        · rw [List.mem_singleton.mp hx]
          exact hm

/-! ## The daemon and its clock -/

/-- The world, and the `now` of the latest call. -/
structure Clocked where
  world : World
  clock : Option DateTime

namespace Clocked

/-- One daemon: calls that process orders, and publish calls. The clock
    does not go back; it may stand still. -/
def machine (uc : ProcessOrderUseCase) : Machine Clocked Processing.Input where
  init s := ∃ rules, s = ⟨World.fresh rules, none⟩
  guard s i :=
    match i with
    | .process c => ∀ t, s.clock = some t → t ≤ c.now
    | .publish _ => True
  step s i :=
    match i with
    | .process c => ⟨(c.execute uc s.world).2, some c.now⟩
    | .publish c => ⟨(publishOutbox c s.world).2, s.clock⟩

/-- What the sink accepts in a publish cycle that commits, in this order. -/
def acceptedIn (p : Clocked × Processing.Input) : List OutboxMessage :=
  match p.2 with
  | .process _ => []
  | .publish c =>
    if PublishCycle.committed ⟨p.1.world, c⟩ then (c.batch p.1.world.db).filter c.accepts else []

/-- The events that the sink has accepted in cycles that committed. -/
def accepted (hist : List (Clocked × Processing.Input)) : List OutboxMessage :=
  hist.flatMap acceptedIn

theorem accepted_append_singleton (hist : List (Clocked × Processing.Input))
    (p : Clocked × Processing.Input) : accepted (hist ++ [p]) = accepted hist ++ acceptedIn p := by
  unfold accepted
  rw [List.flatMap_append, List.flatMap_singleton]

/-- The ids of the outbox in the order in which the events were committed. -/
def committedIds (s : Clocked) : List String := s.world.db.outbox.rows.map (·.messageId)

end Clocked

/-! ## Times ascend -/

/-- The times ascend along the outbox and along what was accepted, and no
    pending event is older than an accepted one. -/
structure InOrder (acc : List OutboxMessage) (s : Clocked) : Prop where
  rows : s.world.db.outbox.rows.Pairwise fun m m' => m.createdAt ≤ m'.createdAt
  clock : ∀ m ∈ s.world.db.outbox.rows, ∃ t, s.clock = some t ∧ m.createdAt ≤ t
  accepted : acc.Pairwise fun m m' => m.createdAt ≤ m'.createdAt
  stored : ∀ a ∈ acc, ∃ m ∈ s.world.db.outbox.rows,
    m.messageId = a.messageId ∧ m.createdAt = a.createdAt
  behind : ∀ a ∈ acc, ∀ m ∈ s.world.db.pending, a.createdAt ≤ m.createdAt

namespace InOrder

variable {uc : ProcessOrderUseCase} {acc : List OutboxMessage} {s : Clocked}

/-- Events that are written now are not older than any other. -/
theorem append (h : InOrder acc s) {ms : List OutboxMessage} {now : DateTime} {w : World}
    (hclock : ∀ t, s.clock = some t → t ≤ now)
    (hrows : w.db.outbox.rows = s.world.db.outbox.rows ++ ms)
    (hms : ∀ m ∈ ms, m.createdAt = now) : InOrder acc ⟨w, some now⟩ := by
  have hold : ∀ m ∈ s.world.db.outbox.rows, m.createdAt ≤ now := by
    intro m hm
    obtain ⟨t, ht, hle⟩ := h.clock m hm
    exact le_trans hle (hclock t ht)
  have hmem : ∀ m, m ∈ w.db.outbox.rows → m ∈ s.world.db.outbox.rows ∨ m.createdAt = now := by
    intro m hm
    rw [hrows, List.mem_append] at hm
    exact hm.imp_right (hms m)
  constructor
  · show w.db.outbox.rows.Pairwise _
    rw [hrows, List.pairwise_append]
    refine ⟨h.rows, List.pairwise_of_forall_mem_list ?_, ?_⟩
    · intro m hm m' hm'
      rw [hms m hm, hms m' hm']
    · intro m hm m' hm'
      rw [hms m' hm']
      exact hold m hm
  · intro m hm
    refine ⟨now, rfl, ?_⟩
    rcases hmem m hm with hm | hm
    · exact hold m hm
    · rw [hm]
  · exact h.accepted
  · intro a ha
    obtain ⟨m, hm, hid, hat⟩ := h.stored a ha
    refine ⟨m, ?_, hid, hat⟩
    show m ∈ w.db.outbox.rows
    rw [hrows]
    exact List.mem_append_left _ hm
  · intro a ha m hm
    obtain ⟨hrow, hpending⟩ := mem_pending.mp hm
    rcases hmem m hrow with hm | hm
    · exact h.behind a ha m (mem_pending.mpr ⟨hm, hpending⟩)
    · -- an accepted event is in the outbox, so it is not newer than now
      obtain ⟨x, hx, _, hat⟩ := h.stored a ha
      rw [hm, ← hat]
      exact hold x hx

/-- A cycle that rolls back leaves the outbox alone. -/
theorem rollback (h : InOrder acc s) {w : World} (hdb : w.db = s.world.db) :
    InOrder acc ⟨w, s.clock⟩ := by
  obtain ⟨hrows, hclock, hacc, hstored, hbehind⟩ := h
  rw [← hdb] at hrows hclock hstored hbehind
  exact ⟨hrows, hclock, hacc, hstored, hbehind⟩

/-- A cycle that commits takes up the oldest events. -/
theorem commit {p : PublishCycle} {batch : List OutboxMessage} (h : InOrder acc s)
    (hp : p.world = s.world) (heff : CycleEffect p batch) :
    InOrder (acc ++ batch.filter p.call.accepts) ⟨p.after, s.clock⟩ := by
  have hpending : ∀ m ∈ batch, m ∈ s.world.db.pending := by
    rw [← hp]
    exact heff.pending
  have hrows : p.after.db.outbox.rows = s.world.db.outbox.rows.map (p.rowAfter batch) := by
    rw [heff.rows, hp]
  have hkept : ∀ m ∈ s.world.db.outbox.rows, ∃ m' ∈ p.after.db.outbox.rows,
      m'.messageId = m.messageId ∧ m'.createdAt = m.createdAt := by
    intro m hm
    rw [hrows]
    exact ⟨_, List.mem_map.mpr ⟨m, hm, rfl⟩, p.rowAfter_keeps batch m⟩
  constructor
  · show p.after.db.outbox.rows.Pairwise _
    rw [hrows, List.pairwise_map]
    refine h.rows.imp ?_
    intro m m' hle
    rw [(p.rowAfter_keeps batch m).2, (p.rowAfter_keeps batch m').2]
    exact hle
  · intro m' hm'
    have hm' : m' ∈ p.after.db.outbox.rows := hm'
    rw [hrows] at hm'
    obtain ⟨m, hm, rfl⟩ := List.mem_map.mp hm'
    rw [(p.rowAfter_keeps batch m).2]
    exact h.clock m hm
  · rw [List.pairwise_append]
    refine ⟨h.accepted, heff.ascending.filter _, ?_⟩
    intro a ha m hm
    exact h.behind a ha m (hpending m (List.mem_filter.mp hm).1)
  · intro a ha
    rcases List.mem_append.mp ha with ha | ha
    · obtain ⟨m, hm, hid, hat⟩ := h.stored a ha
      obtain ⟨m', hm', hid', hat'⟩ := hkept m hm
      exact ⟨m', hm', hid'.trans hid, hat'.trans hat⟩
    · exact hkept a (mem_pending.mp (hpending a (List.mem_filter.mp ha).1)).1
  · intro a ha m hm
    have hm : m ∈ p.after.db.pending := hm
    rw [heff.pending_after, List.mem_filter] at hm
    obtain ⟨hm, hout⟩ := hm
    rcases List.mem_append.mp ha with ha | ha
    · rw [hp] at hm
      exact h.behind a ha m hm
    · -- what the batch left out is not older
      refine heff.oldest a (List.mem_filter.mp ha).1 m hm ?_
      intro hin
      have hid : m.messageId ∈ batch.map (·.messageId) := List.mem_map.mpr ⟨m, hin, rfl⟩
      simp [hid] at hout

/-- Within one step. -/
theorem preserve {hist : List (Clocked × Processing.Input)} {i : Processing.Input}
    (h : InOrder (Clocked.accepted hist) s) (hi : (Clocked.machine uc).guard s i) :
    InOrder (Clocked.accepted (hist ++ [(s, i)])) ((Clocked.machine uc).step s i) := by
  rw [Clocked.accepted_append_singleton]
  match i with
  | .process c =>
    obtain ⟨ms, hrows, hms⟩ := c.execute_events uc s.world
    show InOrder (Clocked.accepted hist ++ []) ⟨(c.execute uc s.world).2, some c.now⟩
    rw [List.append_nil]
    exact h.append hi hrows hms
  | .publish c =>
    show InOrder (Clocked.accepted hist ++ Clocked.acceptedIn (s, .publish c))
      ⟨PublishCycle.after ⟨s.world, c⟩, s.clock⟩
    unfold Clocked.acceptedIn
    rcases PublishCycle.rollback_or_effect ⟨s.world, c⟩ with ⟨hno, _, hdb⟩ | ⟨hcommitted, heff⟩
    · simp only [hno, Bool.false_eq_true, if_false, List.append_nil]
      exact h.rollback hdb
    · simp only [hcommitted, if_true]
      exact h.commit rfl heff

theorem of_run {is : List Processing.Input} (hs : (Clocked.machine uc).init s)
    (hl : (Clocked.machine uc).Legal s is) :
    InOrder (Clocked.accepted ((Clocked.machine uc).visits s is)) ((Clocked.machine uc).run s is) := by
  have hstart : InOrder (Clocked.accepted []) s := by
    obtain ⟨rules, rfl⟩ := hs
    refine ⟨List.Pairwise.nil, ?_, List.Pairwise.nil, ?_, ?_⟩ <;>
      exact fun m hm => absurd hm List.not_mem_nil
  exact (Clocked.machine uc).history_induction (I := fun hist s => InOrder (Clocked.accepted hist) s)
    (fun _ _ _ h hi => h.preserve hi) hstart hl

end InOrder

/-! ## The outbox is a log -/

/-- Of two members of an ordered list, the one that the order puts first
    stands first. -/
theorem pair_sublist_of_pairwise {α : Type} {R : α → α → Prop} {l : List α} (h : l.Pairwise R)
    {a b : α} (ha : a ∈ l) (hb : b ∈ l) (hne : a ≠ b) (hnot : ¬ R b a) : [a, b].Sublist l := by
  induction l with
  | nil => exact absurd ha List.not_mem_nil
  | cons x l ih =>
    obtain ⟨hx, hl⟩ := List.pairwise_cons.mp h
    rcases List.mem_cons.mp ha with rfl | hal
    · rcases List.mem_cons.mp hb with rfl | hbl
      · exact absurd rfl hne
      · exact (List.singleton_sublist.mpr hbl).cons_cons a
    · rcases List.mem_cons.mp hb with rfl | hbl
      · exact absurd (hx a hal) hnot
      · exact (ih hl hal hbl).cons x

namespace Clocked

variable {uc : ProcessOrderUseCase}

/-- A step appends to the outbox, or leaves its events where they are. -/
theorem committedIds_prefix_step (s : Clocked) (i : Processing.Input) :
    s.committedIds <+: ((machine uc).step s i).committedIds := by
  match i with
  | .process c =>
    obtain ⟨ms, hrows, _⟩ := c.execute_events uc s.world
    show s.committedIds <+: ((c.execute uc s.world).2.db.outbox.rows).map (·.messageId)
    rw [hrows, List.map_append]
    exact List.prefix_append _ _
  | .publish c =>
    show s.committedIds <+: ((PublishCycle.after ⟨s.world, c⟩).db.outbox.rows).map (·.messageId)
    rcases PublishCycle.rollback_or_effect ⟨s.world, c⟩ with ⟨_, _, hdb⟩ | ⟨_, heff⟩
    · rw [hdb]
      exact List.prefix_refl _
    · rw [heff.rows, List.map_map]
      have hsame : s.world.db.outbox.rows.map ((·.messageId) ∘
          PublishCycle.rowAfter ⟨s.world, c⟩ (c.batch s.world.db)) = s.committedIds :=
        List.map_congr_left fun m _ => (PublishCycle.rowAfter_keeps _ _ m).1
      exact hsame ▸ List.prefix_refl _

theorem committedIds_prefix_run (s : Clocked) (is : List Processing.Input) :
    s.committedIds <+: ((machine uc).run s is).committedIds := by
  induction is generalizing s with
  | nil => exact List.prefix_refl _
  | cons i is ih => exact (committedIds_prefix_step s i).trans (ih _)

/-- **The order of events.** In every run of one daemon whose clock does
    not go back, the outbox only grows at its end; and of two events with
    different times that the sink accepts in cycles that commit, the one
    that was committed to the outbox first is accepted first. -/
theorem events_in_order {s : Clocked} {is : List Processing.Input} (hs : (machine uc).init s)
    (hl : (machine uc).Legal s is) :
    (∀ is₁ is₂, is = is₁ ++ is₂ →
      ((machine uc).run s is₁).committedIds <+: ((machine uc).run s is).committedIds) ∧
    (accepted ((machine uc).visits s is)).Pairwise fun a b =>
      a.createdAt.instant ≠ b.createdAt.instant →
        [a.messageId, b.messageId].Sublist ((machine uc).run s is).committedIds := by
  constructor
  · intro is₁ is₂ his
    rw [his, Machine.run_append]
    exact committedIds_prefix_run _ is₂
  · have hin := InOrder.of_run hs hl
    refine (List.Pairwise.and_mem.mp hin.accepted).imp ?_
    intro a b hab hne
    obtain ⟨ha, hb, hle⟩ := hab
    obtain ⟨m, hm, hid, hat⟩ := hin.stored a ha
    obtain ⟨m', hm', hid', hat'⟩ := hin.stored b hb
    -- the first one is older, so it stands first
    rw [DateTime.le_def] at hle
    have hlt : ¬ m'.createdAt ≤ m.createdAt := by
      rw [DateTime.le_def, hat, hat']
      omega
    have hmm : m ≠ m' := by
      intro heq
      rw [heq] at hlt
      exact hlt (le_refl _)
    have hpair := (pair_sublist_of_pairwise hin.rows hm hm' hmm hlt).map (·.messageId)
    rw [List.map_cons, List.map_singleton, hid, hid'] at hpair
    exact hpair

/-! ### Two events of one order

    A call that fails, and a second one that succeeds. -/

/-- All that the sink accepts of an order, it accepts in the order of the
    outbox. -/
def AcceptedInOrder (s : Clocked) : Prop :=
  (s.world.deliveries.filter (·.accepted)).Pairwise fun d d' =>
    ∀ m ∈ s.world.db.outbox.rows, ∀ m' ∈ s.world.db.outbox.rows,
      m.messageId = d.messageId → m'.messageId = d'.messageId → m.aggregateId = m'.aggregateId →
        m.messageId ≠ m'.messageId → [d.messageId, d'.messageId].Sublist s.committedIds

def secondCall (now : DateTime) : ProcessCall := { Sample.call Sample.accept with
  now := now, correlationId := Sample.secondId }

/-- A publish call that meets the rows from the last one on. -/
def backwards : PublishCall where
  batchSize := 100
  scan := ⟨List.reverse, List.reverse_perm⟩
  sink _ := .ok ()
  markedAt _ := Sample.eleven
  commitFault := none

/-- A publish call whose sink refuses the first event, and whose commit
    fails. -/
def rolledBack : PublishCall where
  batchSize := 100
  scan := .physical
  sink m := if m.eventType = .OrderEnrichmentFailed
    then .error ⟨.other "ConnectionError", "broker unreachable"⟩ else .ok ()
  markedAt _ := Sample.eleven
  commitFault := some ⟨.OperationalError, "connection lost"⟩

/-- The clock stands still between the two calls. -/
def sameTime : List Processing.Input :=
  [.process (Sample.call Sample.refuse), .process (secondCall Sample.ten), .publish backwards]

/-- The clock goes on, and the first cycle is rolled back. -/
def withRollback : List Processing.Input :=
  [.process (Sample.call Sample.refuse), .process (secondCall Sample.eleven), .publish rolledBack,
    .publish backwards]

def started : Clocked := ⟨World.fresh Sample.rules, none⟩

/-- Publish calls are always legal. -/
theorem legal_publishes (s : Clocked) (cs : List PublishCall) :
    (machine uc).Legal s (cs.map .publish) := by
  induction cs generalizing s with
  | nil => exact fun p hp => absurd hp List.not_mem_nil
  | cons c cs ih =>
    rw [List.map_cons, Machine.legal_cons]
    exact ⟨trivial, ih _⟩

theorem legal_twoCalls {now : DateTime} (h : Sample.ten ≤ now) (cs : List PublishCall) :
    (machine (Sample.useCase 3)).Legal started
      (.process (Sample.call Sample.refuse) :: .process (secondCall now) :: cs.map .publish) := by
  rw [Machine.legal_cons, Machine.legal_cons]
  refine ⟨fun t ht => ?_, fun t ht => ?_, legal_publishes _ cs⟩
  · cases ht
  · have hten : Sample.ten = t := Option.some.inj ht
    rw [← hten]
    exact h

def firstId : String := messageIdOf Sample.correlationId "ORD-1"

def secondEventId : String := messageIdOf Sample.secondId "ORD-1"

/-- Two events of one order, accepted in the other order. -/
theorem not_acceptedInOrder {s : Clocked} {m m' : OutboxMessage}
    (hrows : s.world.db.outbox.rows = [m, m']) (horder : m.aggregateId = m'.aggregateId)
    (hids : m.messageId ≠ m'.messageId)
    (hlog : [⟨m'.messageId, true⟩, ⟨m.messageId, true⟩].Sublist
      (s.world.deliveries.filter (·.accepted))) : ¬ AcceptedInOrder s := by
  intro h
  have hpair := (h.sublist hlog)
  rw [List.pairwise_pair] at hpair
  have hm : m ∈ s.world.db.outbox.rows := by
    rw [hrows]
    exact List.mem_cons_self
  have hm' : m' ∈ s.world.db.outbox.rows := by
    rw [hrows]
    exact List.mem_cons_of_mem _ List.mem_cons_self
  have hsub := hpair m' hm' m hm rfl rfl horder.symm hids.symm
  have hcommitted : s.committedIds = [m.messageId, m'.messageId] := by
    unfold committedIds
    rw [hrows]
    rfl
  rw [hcommitted] at hsub
  have heq := hsub.eq_of_length rfl
  exact hids (List.cons.inj heq).1.symm

theorem events_out_of_order :
    ((machine (Sample.useCase 3)).init started ∧
      (machine (Sample.useCase 3)).Legal started sameTime ∧
      ¬ AcceptedInOrder ((machine (Sample.useCase 3)).run started sameTime)) ∧
    ((machine (Sample.useCase 3)).Legal started withRollback ∧
      ¬ AcceptedInOrder ((machine (Sample.useCase 3)).run started withRollback)) := by
  refine ⟨⟨⟨Sample.rules, rfl⟩, legal_twoCalls (by decide) [backwards], ?_⟩,
    legal_twoCalls (by decide) [rolledBack, backwards], ?_⟩
  · have hlog : ((machine (Sample.useCase 3)).run started sameTime).world.deliveries =
        [⟨secondEventId, true⟩, ⟨firstId, true⟩] := rfl
    refine not_acceptedInOrder rfl rfl (by decide) ?_
    rw [hlog]
    exact List.Sublist.refl _
  · have hlog : ((machine (Sample.useCase 3)).run started withRollback).world.deliveries =
        [⟨firstId, false⟩, ⟨secondEventId, true⟩, ⟨firstId, true⟩, ⟨secondEventId, true⟩] := rfl
    refine not_acceptedInOrder rfl rfl (by decide) ?_
    rw [hlog]
    have hfirst : [(⟨secondEventId, true⟩ : Delivery), ⟨firstId, true⟩].Sublist
        ([⟨secondEventId, true⟩, ⟨firstId, true⟩] ++ [⟨secondEventId, true⟩]) :=
      List.sublist_append_left _ _
    exact hfirst

/-- With the clock going on between the calls, the scan does not matter. -/
theorem events_in_order_backwards :
    let is : List Processing.Input :=
      [.process (Sample.call Sample.refuse), .process (secondCall Sample.eleven), .publish backwards]
    (∀ is₁ is₂, is = is₁ ++ is₂ →
      ((machine (Sample.useCase 3)).run started is₁).committedIds <+:
        ((machine (Sample.useCase 3)).run started is).committedIds) ∧
    (accepted ((machine (Sample.useCase 3)).visits started is)).Pairwise fun a b =>
      a.createdAt.instant ≠ b.createdAt.instant →
        [a.messageId, b.messageId].Sublist ((machine (Sample.useCase 3)).run started is).committedIds :=
  events_in_order ⟨Sample.rules, rfl⟩ (legal_twoCalls (by decide) [backwards])

end Clocked

end RulesEnrichment
