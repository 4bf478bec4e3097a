import RulesEnrichment.DaemonRuns
import RulesEnrichment.DeadLetter
import RulesEnrichment.Lib.BatchQueue
import RulesEnrichment.OutboxTruth

/-! # The backlog of the outbox

    A round of the daemon adds the events of its orders to the outbox and
    then publishes up to a hundred messages, so the pending messages are a
    queue served in batches (`backlog_of_run`).

    * `outbox_backlog_iff`: which rounds keep the backlog below a bound, and how
      fast it goes where polls are small.
    * `logged_exactly_once`: with the log sink, what has been published has
      been delivered, and delivered once, over all lifetimes of the daemon. -/

namespace RulesEnrichment

open StepMachine

/-! ## What a call and a cycle add -/

/-- `rows'` are the rows, and after them at most `n` messages that wait. -/
def Enqueues (n : Nat) (rows rows' : List OutboxMessage) : Prop :=
  ∃ ms : List OutboxMessage, rows' = rows ++ ms ∧ ms.length ≤ n ∧ ∀ m ∈ ms, m.status = .PENDING

theorem Enqueues.nothing {n : Nat} {rows : List OutboxMessage} : Enqueues n rows rows :=
  ⟨[], (List.append_nil _).symm, Nat.zero_le n, fun _ hm => absurd hm List.not_mem_nil⟩

theorem Enqueues.trans {n n' : Nat} {rows rows' rows'' : List OutboxMessage}
    (h : Enqueues n rows rows') (h' : Enqueues n' rows' rows'') :
    Enqueues (n + n') rows rows'' := by
  obtain ⟨ms, rfl, hlen, hpending⟩ := h
  obtain ⟨ms', rfl, hlen', hpending'⟩ := h'
  refine ⟨ms ++ ms', List.append_assoc _ _ _, ?_, ?_⟩
  · rw [List.length_append]
    omega
  · intro m hm
    rcases List.mem_append.mp hm with hm | hm
    · exact hpending m hm
    · exact hpending' m hm

theorem Enqueues.mono {n n' : Nat} {rows rows' : List OutboxMessage} (h : Enqueues n rows rows')
    (hle : n ≤ n') : Enqueues n' rows rows' := by
  obtain ⟨ms, hrows, hlen, hpending⟩ := h
  exact ⟨ms, hrows, Nat.le_trans hlen hle, hpending⟩

theorem Recorded.enqueues {r : ResultRecord} {db db' : Database} (h : Recorded r db db') :
    Enqueues 1 db.outbox.rows db'.outbox.rows :=
  ⟨[r.message], h.outbox, Nat.le_refl 1, fun m hm => by rw [List.mem_singleton.mp hm]; rfl⟩

/-- A call adds at most one event: the move to the dead letter, which would
    add a second one, never goes through. -/
theorem ProcessCall.execute_enqueues (uc : ProcessOrderUseCase) (c : ProcessCall) (w : World) :
    Enqueues 1 w.db.outbox.rows (c.execute uc w).2.db.outbox.rows ∧
      (c.execute uc w).2.deliveries = w.deliveries := by
  have hstep := c.execute_step uc w
  generalize (c.execute uc w).1 = res, (c.execute uc w).2 = w' at hstep ⊢
  cases hstep with
  | evaluationError e hraise => exact ⟨.nothing, rfl⟩
  | duplicate d hash hdec hdup => exact ⟨.nothing, rfl⟩
  | noMatch d hash db hdec hdup hmatch hrec hfault => exact ⟨hrec.enqueues, rfl⟩
  | noMatchRefused d hash e hdec hdup hmatch hrefused => exact ⟨.nothing, rfl⟩
  | submits d hash hsub hstep =>
    cases hstep with
    | succeeded db hanswer hrec hfault => exact ⟨hrec.enqueues, rfl⟩
    | failureRefused accepted exc e htry hrefused => exact ⟨.nothing, rfl⟩
    | failed accepted exc db htry hrec hfault hlimit => exact ⟨hrec.enqueues, rfl⟩
    | deadLetterRefused accepted exc e db htry hrec hfault hlimit hrefused =>
      exact ⟨hrec.enqueues, rfl⟩
    | deadLettered accepted exc db db' htry hrec hfault hlimit hdead hjson =>
      rw [firstForeign_deadLetterPayload] at hjson
      cases hjson

theorem handleOrders_enqueues {f : EnrichmentFacade} {env : Nat → OrderEnv}
    (orders : List ExternalOrder) (i : Nat) (s : LoopState) :
    Enqueues orders.length s.world.db.outbox.rows
        (f.handleOrders env i orders s).2.world.db.outbox.rows ∧
      (f.handleOrders env i orders s).2.world.deliveries = s.world.deliveries := by
  induction orders generalizing i s with
  | nil => exact ⟨.nothing, rfl⟩
  | cons order orders ih =>
    unfold EnrichmentFacade.handleOrders
    cases hh : f.handleOrder (env i) order s with
    | error e => exact ⟨.nothing, rfl⟩
    | ok s' =>
      obtain ⟨rules, _, hworld, _, _⟩ := EnrichmentFacade.handleOrder_ok hh
      obtain ⟨hone, hsame⟩ := ((env i).processCall order rules).execute_enqueues f.process s.world
      rw [← hworld] at hone hsame
      obtain ⟨hrest, hsame'⟩ := ih (i + 1) s'
      exact ⟨(hone.trans hrest).mono (by rw [List.length_cons]; omega), hsame'.trans hsame⟩

/-- A cycle adds at most one event for each order it polled, and delivers
    nothing. -/
theorem cycle_enqueues (f : EnrichmentFacade) (c : Cycle) (d : Daemon) :
    Enqueues (match c.poll d.updatedSince f.pollBatchSize with
        | .ok orders => orders.length
        | .error _ => 0)
      d.world.db.outbox.rows (PollingWorker.runOnce f c d).2.world.db.outbox.rows ∧
      (PollingWorker.runOnce f c d).2.world.deliveries = d.world.deliveries := by
  rw [(DaemonProcess.runOnce_cycleEnd f c d).1]
  unfold PollingWorker.cycleEnd
  rcases f.runOnce_cases c d.updatedSince d.world d.cache with ⟨e, _, hend⟩ | ⟨orders, hpoll, hend⟩
  · rw [hend]
    exact ⟨.nothing, rfl⟩
  · rw [hend, hpoll]
    exact handleOrders_enqueues orders 0 _

theorem Enqueues.length_pending {n : Nat} {db db' : Database}
    (h : Enqueues n db.outbox.rows db'.outbox.rows) : db'.pending.length =
      db.pending.length + (db'.outbox.rows.length - db.outbox.rows.length) := by
  obtain ⟨ms, hrows, _, hpending⟩ := h
  unfold Database.pending
  rw [hrows, List.filter_append, List.length_append, List.length_append,
    List.filter_eq_self.mpr fun m hm => decide_eq_true (hpending m hm)]
  omega

theorem Enqueues.length_le {n : Nat} {rows rows' : List OutboxMessage} (h : Enqueues n rows rows') :
    rows'.length - rows.length ≤ n := by
  obtain ⟨ms, rfl, hlen, _⟩ := h
  rw [List.length_append]
  omega

/-! ## Round after round -/

namespace DaemonProcess

variable {b : Bootstrap}

/-- The messages that wait to be published. -/
def pending (p : DaemonProcess) : List OutboxMessage := p.world.db.pending

/-- How many events the cycle of a round adds to the outbox. -/
def enqueued (b : Bootstrap) (p : DaemonProcess) (r : Round) : Nat :=
  match p with
  | .stopped _ _ => 0
  | .running d =>
    (PollingWorker.runOnce b.facade r.cycle d).2.world.db.outbox.rows.length -
      d.world.db.outbox.rows.length

/-- How many orders a round polls. -/
def fetched (b : Bootstrap) (p : DaemonProcess) (r : Round) : Nat :=
  match p with
  | .stopped _ _ => 0
  | .running d =>
    match r.cycle.poll d.updatedSince b.facade.pollBatchSize with
    | .ok orders => orders.length
    | .error _ => 0

theorem enqueued_le_fetched (p : DaemonProcess) (r : Round) : enqueued b p r ≤ fetched b p r := by
  match p with
  | .stopped e w => exact Nat.le_refl 0
  | .running d => exact (cycle_enqueues b.facade r.cycle d).1.length_le

/-- A round that returned is its cycle and a publish call that committed. -/
theorem round_ok {r : Round} {d d' : Daemon} (h : b.round r d = (.ok (), d')) :
    ∃ p : PublishCycle, p.world = (PollingWorker.runOnce b.facade r.cycle d).2.world ∧
      p.call = r.publish.call b.sink ∧ p.committed = true ∧ d'.world = p.after := by
  rcases round_cases b r d with ⟨e, _, hres⟩ | ⟨_, hres⟩
  · rw [hres] at h
    cases h
  · rw [hres] at h
    refine ⟨⟨(PollingWorker.runOnce b.facade r.cycle d).2.world, r.publish.call b.sink⟩, rfl, rfl, ?_⟩
    obtain ⟨hok, hd'⟩ := Prod.mk.inj h
    rw [← hd']
    refine ⟨?_, rfl⟩
    unfold PublishCycle.committed
    unfold OutboxPublisherWorker.runOnce at hok
    rcases hpub : publishOutbox (r.publish.call b.sink)
      (PollingWorker.runOnce b.facade r.cycle d).2.world with ⟨e | n, w⟩
    · rw [hpub] at hok
      cases hok
    · rfl

/-- A round serves the queue once, after the events of its cycle joined. -/
theorem pending_round {r : Round} {p : DaemonProcess} {d' : Daemon}
    (h : p.round b r = .running d') :
    d'.world.db.pending.length = p.pending.length + enqueued b p r - 100 := by
  obtain ⟨d, rfl, hround⟩ := round_running.mp h
  obtain ⟨c, hworld, hcall, hcommitted, hafter⟩ := round_ok hround
  have hserved := (c.effect hcommitted).length_pending
  have hjoined := (cycle_enqueues b.facade r.cycle d).1.length_pending
  have hsize : c.call.batchSize = 100 := by rw [hcall]; rfl
  rw [hafter, hserved, hworld, hjoined, hsize]
  rfl

theorem run_stopped (e : PyErr) (w : World) (rs : List Round) :
    (rounds b).run (.stopped e w) rs = .stopped e w := by
  induction rs with
  | nil => rfl
  | cons r rs ih => exact ih

/-- The backlog after some rounds is that of a queue which the events of the
    rounds join, and which is served by the hundred. -/
theorem backlog_of_run {p : DaemonProcess} {rs : List Round} {d' : Daemon}
    (h : (rounds b).run p rs = .running d') : d'.world.db.pending.length =
      BatchQueue.backlog 100 p.pending.length
        (((rounds b).visits p rs).map fun v => enqueued b v.1 v.2) := by
  induction rs generalizing p with
  | nil =>
    have hp : p = .running d' := h
    rw [hp]
    rfl
  | cons r rs ih =>
    rw [Machine.visits_cons, List.map_cons, BatchQueue.backlog]
    have hstep : (rounds b).step p r = p.round b r := rfl
    rw [Machine.run_cons, hstep] at h
    rw [hstep, ih h]
    -- the process got through this round, or it would not run at the end
    rcases hround : p.round b r with d₁ | ⟨e, w⟩
    · rw [← pending_round hround]
      rfl
    · rw [hround, run_stopped] at h
      cases h

/-- **The backlog.** After rounds that a process got through, at most `x`
    events wait if and only if no final stretch of the rounds added more
    than `x` events and a hundred for each of its rounds, and all of them
    together did not either, with what waited before. If no poll returns
    more than `a ≤ 100` orders, then each round takes at least `100 - a`
    events off the backlog, until there is none. -/
theorem outbox_backlog_iff (b : Bootstrap) {p : DaemonProcess} {rs : List Round} {d' : Daemon}
    (hrun : (rounds b).run p rs = .running d') :
    let joined := ((rounds b).visits p rs).map fun v => enqueued b v.1 v.2
    (∀ x, d'.world.db.pending.length ≤ x ↔
      p.pending.length + joined.sum ≤ x + rs.length * 100 ∧
        ∀ l, l <:+ joined → l.sum ≤ x + l.length * 100) ∧
    ∀ a, a ≤ 100 → (∀ v ∈ (rounds b).visits p rs, fetched b v.1 v.2 ≤ a) →
      d'.world.db.pending.length ≤ p.pending.length - rs.length * (100 - a) := by
  intro joined
  have hlen : joined.length = rs.length := by
    rw [List.length_map, Machine.length_visits]
  rw [backlog_of_run hrun, ← hlen]
  refine ⟨fun x => BatchQueue.backlog_le_iff, ?_⟩
  intro a ha hfetched
  refine BatchQueue.backlog_le_sub ha ?_
  intro n hn
  obtain ⟨v, hv, rfl⟩ := List.mem_map.mp hn
  exact Nat.le_trans (enqueued_le_fetched v.1 v.2) (hfetched v hv)

/-! ### Two rounds, the first of which gets two orders -/

theorem outbox_backlog_iff_sample :
    let rs := [Sample.round [Sample.order "ORD-1" Sample.nine, Sample.order "ORD-2" Sample.nine],
      Sample.round []]
    ∃ d', (rounds Sample.bootstrap).run (start (World.fresh Sample.rules)) rs = .running d' ∧
      d'.world.db.pending.length ≤ 0 ∧ d'.world.deliveries.length = 2 := by
  intro rs
  have hrun : ∃ d', (rounds Sample.bootstrap).run (start (World.fresh Sample.rules)) rs =
      .running d' ∧ d'.world.deliveries.length = 2 := ⟨_, rfl, by rfl⟩
  obtain ⟨d', hrun, hdelivered⟩ := hrun
  have hfetched : ∀ v ∈ (rounds Sample.bootstrap).visits (start (World.fresh Sample.rules)) rs,
      fetched Sample.bootstrap v.1 v.2 ≤ 2 := by
    intro v hv
    rcases List.mem_cons.mp hv with rfl | hv
    · exact show (2 : Nat) ≤ 2 by decide
    · rw [List.mem_singleton.mp hv]
      exact show (0 : Nat) ≤ 2 by decide
  have hle := (outbox_backlog_iff Sample.bootstrap hrun).2 2 (by decide) hfetched
  have hempty : (start (World.fresh Sample.rules)).pending.length = 0 := rfl
  exact ⟨d', hrun, by omega, hdelivered⟩

/-! ## Delivered once -/

/-- Rewriting the elements of one kind, which the filter drops, into ones
    that it keeps. -/
theorem filter_map_ite_perm {α : Type} (taken keep : α → Bool) (f : α → α)
    (hf : ∀ a, keep (f a) = true) {l : List α} (hdrop : ∀ a ∈ l, taken a = true → keep a = false) :
    ((l.map fun a => if taken a then f a else a).filter keep).Perm
      (l.filter keep ++ (l.filter taken).map f) := by
  induction l with
  | nil => exact List.Perm.refl _
  | cons a l ih =>
    have hrest := ih fun x hx => hdrop x (List.mem_cons_of_mem _ hx)
    rw [List.map_cons]
    cases ht : taken a with
    | true =>
      have hk := hdrop a List.mem_cons_self ht
      rw [if_pos rfl, List.filter_cons_of_pos (hf a), List.filter_cons_of_pos ht,
        List.filter_cons_of_neg (by simp [hk]), List.map_cons]
      exact (hrest.cons _).trans List.perm_middle.symm
    | false =>
      rw [if_neg Bool.false_ne_true, List.filter_cons_of_neg (p := taken) (by simp [ht])]
      cases hk : keep a with
      | true =>
        rw [List.filter_cons_of_pos hk, List.filter_cons_of_pos hk]
        exact hrest.cons a
      | false =>
        rw [List.filter_cons_of_neg (by simp [hk]), List.filter_cons_of_neg (by simp [hk])]
        exact hrest

theorem committed_iff {w : World} {sink : OutboxSink} {e : PublishEnv} :
    PublishCycle.committed ⟨w, e.call sink⟩ = true ↔ e.commitFault = none :=
  publish_isOk _ _

/-- Process after process, where no publish cycle fails to commit. Polls,
    queries for rules, submissions and the commits of results may fail. -/
def publishing (b : Bootstrap) : Machine DaemonProcess Input where
  init p := ∃ rules, p = start (World.fresh rules)
  guard _ i :=
    match i with
    | .round r => r.publish.commitFault = none
    | .restart => True
  step := step b

/-- What was delivered is what is not pending any more, each message once,
    and its status tells what the sink did. -/
def DeliveredOnce (w : World) : Prop :=
  w.deliveries.Perm ((w.db.outbox.rows.filter (·.status ≠ .PENDING)).map
    fun m => ⟨m.messageId, decide (m.status = .PUBLISHED)⟩)

namespace DeliveredOnce

theorem fresh (rules : KeyedTable.Table EnrichmentRule EnrichmentRule.ruleId) :
    DeliveredOnce (World.fresh rules) := List.Perm.refl _

/-- New events wait. -/
theorem preserve_enqueues {n : Nat} {w w' : World} (h : DeliveredOnce w)
    (hrows : Enqueues n w.db.outbox.rows w'.db.outbox.rows) (hsame : w'.deliveries = w.deliveries) :
    DeliveredOnce w' := by
  obtain ⟨ms, hrows, _, hpending⟩ := hrows
  have hnone : ms.filter (·.status ≠ .PENDING) = [] := by
    rw [List.filter_eq_nil_iff]
    intro m hm
    simp [hpending m hm]
  unfold DeliveredOnce
  rw [hrows, hsame, List.filter_append, hnone, List.append_nil]
  exact h

/-- A publish cycle that commits. -/
theorem preserve_effect {c : PublishCycle} {batch : List OutboxMessage} (h : DeliveredOnce c.world)
    (heff : CycleEffect c batch) : DeliveredOnce c.after := by
  let taken : OutboxMessage → Bool := fun m => decide (m.messageId ∈ batch.map (·.messageId))
  have hbatch : ∀ m ∈ batch, m ∈ c.world.db.outbox.rows ∧ m.status = .PENDING :=
    fun m hm => mem_pending.mp (heff.pending m hm)
  have htaken : (c.world.db.outbox.rows.filter taken).Perm batch :=
    heff.taken_perm (c.world.db.outbox.nodup.of_map _) (fun _ hm => hm) fun m hm => (hbatch m hm).1
  -- a row under an id of the batch is pending
  have hwaiting : ∀ m ∈ c.world.db.outbox.rows, taken m = true →
      decide (m.status ≠ .PENDING) = false := by
    intro m hm ht
    have hin := (heff.mem_batch_iff hm).mp (of_decide_eq_true ht)
    simp [(hbatch m hin).2]
  have hdeliveries : c.after.deliveries = c.world.deliveries ++ batch.map c.call.delivery := by
    have hframe := congrArg World.deliveries heff.frame
    rw [hframe, heff.passed]
    rfl
  have hdone := (filter_map_ite_perm taken (fun m => decide (m.status ≠ .PENDING)) c.call.settle
    (fun m => decide_eq_true (c.call.status_settle m)) hwaiting).map
      fun m : OutboxMessage => (⟨m.messageId, decide (m.status = .PUBLISHED)⟩ : Delivery)
  have hids : ((c.world.db.outbox.rows.filter taken).map c.call.settle).map
      (fun m => (⟨m.messageId, decide (m.status = .PUBLISHED)⟩ : Delivery)) =
        (c.world.db.outbox.rows.filter taken).map c.call.delivery := by
    rw [List.map_map]
    exact List.map_congr_left fun m _ => c.call.delivery_settle m
  rw [List.map_append, hids] at hdone
  simp only [taken, decide_eq_true_eq] at hdone
  unfold DeliveredOnce
  rw [hdeliveries, heff.rows]
  exact (h.append (htaken.map _).symm).trans hdone.symm

/-- A publish cycle of the worker. -/
theorem preserve_publish {w : World} {sink : OutboxSink} {e : PublishEnv} (h : DeliveredOnce w)
    (hcommit : e.commitFault = none) :
    DeliveredOnce (OutboxPublisherWorker.runOnce sink e w).2 :=
  preserve_effect (c := ⟨w, e.call sink⟩) h (PublishCycle.effect _ (committed_iff.mpr hcommit))

theorem preserve_round {p : DaemonProcess} {r : Round} (h : DeliveredOnce p.world)
    (hcommit : r.publish.commitFault = none) : DeliveredOnce (p.round b r).world := by
  match p with
  | .stopped e w => exact h
  | .running d =>
    obtain ⟨hrows, hsame⟩ := cycle_enqueues b.facade r.cycle d
    have hcycle := h.preserve_enqueues hrows hsame
    rw [world_round]
    rcases round_cases b r d with ⟨e, _, hres⟩ | ⟨_, hres⟩
    · rw [hres]
      exact hcycle
    · rw [hres]
      exact hcycle.preserve_publish hcommit

end DeliveredOnce

/-- **Delivered once.** Where no publish cycle fails to commit, the sink gets
    every event that is not pending once. -/
theorem deliveredOnce_of_reachable {p : DaemonProcess} (hp : (publishing b).Reachable p) :
    DeliveredOnce p.world := by
  refine Machine.reachable_induction _ (I := fun p => DeliveredOnce p.world) ?_ ?_ hp
  · rintro p ⟨rules, rfl⟩
    exact DeliveredOnce.fresh rules
  · intro p i h hguard
    match i with
    | .round r => exact h.preserve_round hguard
    | .restart => exact h

/-- The log sink refuses nothing, so nothing is marked as failed. -/
theorem noneFailed_round {p : DaemonProcess} {r : Round} (hsink : b.sink = .structuredLog)
    (h : ∀ m ∈ p.world.db.outbox.rows, m.status ≠ .FAILED) :
    ∀ m ∈ (p.round b r).world.db.outbox.rows, m.status ≠ .FAILED := by
  match p with
  | .stopped e w => exact h
  | .running d =>
    obtain ⟨⟨ms, hrows, _, hpending⟩, _⟩ := cycle_enqueues b.facade r.cycle d
    have hcycle : ∀ m ∈ (PollingWorker.runOnce b.facade r.cycle d).2.world.db.outbox.rows,
        m.status ≠ .FAILED := by
      intro m hm
      rw [hrows] at hm
      rcases List.mem_append.mp hm with hm | hm
      · exact h m hm
      · rw [hpending m hm]
        decide
    rw [world_round]
    rcases round_cases b r d with ⟨e, _, hres⟩ | ⟨_, hres⟩
    · rw [hres]
      exact hcycle
    · rw [hres, hsink]
      let c : PublishCycle := ⟨(PollingWorker.runOnce b.facade r.cycle d).2.world,
        r.publish.call .structuredLog⟩
      show ∀ m ∈ c.after.db.outbox.rows, m.status ≠ .FAILED
      rcases c.rollback_or_effect with ⟨_, _, hsame⟩ | ⟨_, heff⟩
      · rw [hsame]
        exact hcycle
      · intro m hm
        rw [heff.rows] at hm
        obtain ⟨x, hx, rfl⟩ := List.mem_map.mp hm
        unfold PublishCycle.rowAfter
        split
        · exact fun hno => OutboxStatus.noConfusion hno
        · exact hcycle x hx

/-- **Exactly once.** Where no publish cycle fails to commit, the log sink
    gets every event once, over all lifetimes of the daemon, each of which
    ends between rounds or by an exception: what was delivered is what is
    published, nothing has failed, and the rest waits. A round that ends
    with at most a hundred events to publish leaves none undelivered. -/
theorem logged_exactly_once (b : Bootstrap) (hsink : b.sink = .structuredLog) {p : DaemonProcess}
    (hp : (publishing b).Reachable p) :
    (∀ m ∈ p.world.db.outbox.rows, m.status ≠ .FAILED) ∧
    p.world.deliveries.Perm
      ((p.world.db.outbox.rows.filter (·.status ≠ .PENDING)).map fun m => ⟨m.messageId, true⟩) ∧
    ∀ r d', p.round b r = .running d' → p.pending.length + enqueued b p r ≤ 100 →
      d'.world.deliveries.Perm (d'.world.db.outbox.rows.map fun m => ⟨m.messageId, true⟩) := by
  have hnone : ∀ {p}, (publishing b).Reachable p → ∀ m ∈ p.world.db.outbox.rows,
      m.status ≠ .FAILED := by
    intro p hp
    refine Machine.reachable_induction _
      (I := fun p => ∀ m ∈ p.world.db.outbox.rows, m.status ≠ .FAILED) ?_ ?_ hp
    · rintro p ⟨rules, rfl⟩ m hm
      exact absurd hm List.not_mem_nil
    · intro p i h hguard
      match i with
      | .round r => exact noneFailed_round hsink h
      | .restart => exact h
  -- what is not pending is published
  have hstatus : ∀ w : World, (∀ m ∈ w.db.outbox.rows, m.status ≠ .FAILED) → DeliveredOnce w →
      w.deliveries.Perm
        ((w.db.outbox.rows.filter (·.status ≠ .PENDING)).map fun m => ⟨m.messageId, true⟩) := by
    intro w hw h
    have hsame : ((w.db.outbox.rows.filter (·.status ≠ .PENDING)).map
        fun m => (⟨m.messageId, decide (m.status = .PUBLISHED)⟩ : Delivery)) =
          (w.db.outbox.rows.filter (·.status ≠ .PENDING)).map fun m => ⟨m.messageId, true⟩ := by
      refine List.map_congr_left fun m hm => ?_
      obtain ⟨hin, hstatus⟩ := List.mem_filter.mp hm
      have hpublished : m.status = .PUBLISHED := by
        cases hcase : m.status with
        | PENDING => exact absurd hcase (of_decide_eq_true hstatus)
        | PUBLISHED => rfl
        | FAILED => exact absurd hcase (hw m hin)
      rw [hpublished]
      rfl
    unfold DeliveredOnce at h
    rwa [hsame] at h
  have hinv := deliveredOnce_of_reachable hp
  refine ⟨hnone hp, hstatus p.world (hnone hp) hinv, ?_⟩
  intro r d' hround hfew
  obtain ⟨_, _, _, hcommit⟩ := goesThrough_iff.mpr ⟨d', hround⟩
  have hafter := hinv.preserve_round (b := b) (r := r) hcommit
  have hnone' := noneFailed_round (r := r) hsink (hnone hp)
  rw [hround] at hafter hnone'
  -- the hundred that a cycle takes up are all there are
  have hempty : d'.world.db.pending = [] := by
    refine List.eq_nil_of_length_eq_zero ?_
    rw [pending_round hround]
    omega
  have hall : d'.world.db.outbox.rows.filter (·.status ≠ .PENDING) = d'.world.db.outbox.rows := by
    rw [List.filter_eq_self]
    intro m hm
    refine decide_eq_true fun hpending => ?_
    have hin := mem_pending.mpr ⟨hm, hpending⟩
    rw [hempty] at hin
    cases hin
  have hdeliveries := hstatus d'.world hnone' hafter
  rwa [hall] at hdeliveries

/-- A round whose poll fails ends the process; the next one publishes what
    the first had stored. -/
theorem logged_exactly_once_sample :
    let failing : Round := { Sample.round [] with
      cycle := { Sample.calmCycle [] Sample.nine with
        poll := fun _ _ => .error ⟨.ExternalApiTimeoutError, "timed out"⟩ } }
    let p := (publishing Sample.bootstrap).run (start (World.fresh Sample.rules))
      [.round (Sample.round [Sample.order "ORD-1" Sample.nine]), .round failing, .restart]
    p.world.deliveries.Perm
      ((p.world.db.outbox.rows.filter (·.status ≠ .PENDING)).map fun m => ⟨m.messageId, true⟩) := by
  intro failing p
  have hp : (publishing Sample.bootstrap).Reachable p := by
    refine ⟨_, _, ⟨Sample.rules, rfl⟩, ?_, rfl⟩
    rw [Machine.legal_cons, Machine.legal_cons, Machine.legal_cons]
    exact ⟨rfl, rfl, trivial, fun _ hp => absurd hp List.not_mem_nil⟩
  exact (logged_exactly_once Sample.bootstrap rfl hp).2.1

end DaemonProcess

end RulesEnrichment
