import RulesEnrichment.Attempts
import RulesEnrichment.Batch
import RulesEnrichment.Cursor
import RulesEnrichment.Decoding
import RulesEnrichment.Lib.Simulation
import RulesEnrichment.Model.Workers
import RulesEnrichment.Submissions

/-! # Runs of the daemon

    The loop of `run-daemon` as a machine, with processes that end and
    others that start on what they left.

    * `keeps_running_iff`: when a process gets through its rounds.
    * `daemon_within_processing`: whatever the rounds do, and however often
      a process that has ended, between its rounds or by an exception, is
      started anew, the database, the submissions and the deliveries are
      those of a sequence of single calls, so what was shown of such
      sequences holds of the daemon. -/

namespace RulesEnrichment

open StepMachine UnitOfWork

namespace DaemonProcess

/-! ## The machines -/

inductive Input where
  | round (r : Round)
  /-- The process has ended, between two rounds or by an exception, and a
      new one starts. Kills inside a round are those of a `Fleet`. -/
  | restart

def step (b : Bootstrap) (p : DaemonProcess) : Input → DaemonProcess
  | .round r => p.round b r
  | .restart => start p.world

/-- The ids that `n` orders of a batch get, from a position on. -/
def batchIds (env : Nat → OrderEnv) (i n : Nat) : List String :=
  (List.range' i n).map fun j => (env j).correlationId

/-- UUIDs, no two of them the same, and none handed out before. -/
structure NewIds (issued ids : List String) : Prop where
  nodup : ids.Nodup
  uuid : ∀ id ∈ ids, isUuid id = true
  unused : ∀ id ∈ ids, id ∉ issued

/-- The id generator's promise for a round. -/
def FreshIds (b : Bootstrap) : DaemonProcess → Input → Prop
  | .running d, .round r => ∀ orders,
    r.cycle.poll d.updatedSince b.facade.pollBatchSize = .ok orders →
      NewIds d.world.issued (batchIds r.cycle.env 0 orders.length)
  | _, _ => True

/-- Process after process, from a fresh world. -/
def machine (b : Bootstrap) : Machine DaemonProcess Input where
  init p := ∃ rules, p = start (World.fresh rules)
  guard := FreshIds b
  step := step b

/-- The rounds of one process. -/
def rounds (b : Bootstrap) : Machine DaemonProcess Round where
  init p := ∃ w, p = start w
  guard _ _ := True
  step p r := p.round b r

/-! ## What ends a process -/

/-- The environment lets the process go through the round: the poll gets an
    answer that can be decoded, the rules of each order are cached and fresh
    or can be loaded, and the marks of the publish cycle can be committed. -/
def GoesThrough (b : Bootstrap) (p : DaemonProcess) (r : Round) : Prop :=
  ∃ d, p = .running d ∧
    (∃ orders, r.cycle.poll d.updatedSince b.facade.pollBatchSize = .ok orders ∧
      rulesAnswer b.facade.ruleCacheTtlSeconds r.cycle.env 0 (orders.map scopeOf) d.cache.times =
        true) ∧
    r.publish.commitFault = none

variable {b : Bootstrap}

/-- A cycle returns if its poll does and the rules of every order can be had. -/
theorem runOnce_isOk {f : EnrichmentFacade} {c : Cycle} {d : Daemon} :
    (PollingWorker.runOnce f c d).1.isOk = true ↔
      ∃ orders, c.poll d.updatedSince f.pollBatchSize = .ok orders ∧
        rulesAnswer f.ruleCacheTtlSeconds c.env 0 (orders.map scopeOf) d.cache.times = true := by
  unfold PollingWorker.runOnce EnrichmentFacade.runOnce
  cases hpoll : c.poll d.updatedSince f.pollBatchSize with
  | error e => simp [Except.isOk, Except.toBool]
  | ok orders =>
    let s : LoopState := ⟨d.world.issue c.runId, d.cache, 0, 0,
      EnrichmentFacade.startCursor c d.updatedSince, []⟩
    have hends : (f.handleOrders c.env 0 orders s).1 = none ↔
        rulesAnswer f.ruleCacheTtlSeconds c.env 0 (orders.map scopeOf) d.cache.times = true :=
      handleOrders_ends_iff orders 0 s
    simp only [Except.ok.injEq, exists_eq_left']
    rcases hloop : f.handleOrders c.env 0 orders s with ⟨_ | e, s'⟩
    · rw [hloop] at hends
      exact ⟨fun _ => hends.mp rfl, fun _ => rfl⟩
    · rw [hloop] at hends
      exact ⟨fun h => absurd h Bool.false_ne_true, fun h => absurd (hends.mpr h) (by simp)⟩

/-- **A round** ends with its cycle if that raises, else with what its publish
    cycle comes to. -/
theorem round_cases (b : Bootstrap) (r : Round) (d : Daemon) :
    (∃ e, (PollingWorker.runOnce b.facade r.cycle d).1 = .error e ∧
      b.round r d = (.error e, (PollingWorker.runOnce b.facade r.cycle d).2)) ∨
    ((PollingWorker.runOnce b.facade r.cycle d).1.isOk = true ∧
      b.round r d = ((OutboxPublisherWorker.runOnce b.sink r.publish
          (PollingWorker.runOnce b.facade r.cycle d).2.world).1.map fun _ => (),
        { (PollingWorker.runOnce b.facade r.cycle d).2 with
          world := (OutboxPublisherWorker.runOnce b.sink r.publish
            (PollingWorker.runOnce b.facade r.cycle d).2.world).2 })) := by
  unfold Bootstrap.round
  rcases PollingWorker.runOnce b.facade r.cycle d with ⟨e | counts, d'⟩
  · exact Or.inl ⟨e, rfl, rfl⟩
  · refine Or.inr ⟨rfl, ?_⟩
    simp only
    rcases OutboxPublisherWorker.runOnce b.sink r.publish d'.world with ⟨e | n, w⟩ <;> rfl

/-- What a worker keeps of its cycle. -/
theorem runOnce_cycleEnd (f : EnrichmentFacade) (c : Cycle) (d : Daemon) :
    (PollingWorker.runOnce f c d).2.world = (PollingWorker.cycleEnd f d c).world ∧
      (PollingWorker.runOnce f c d).2.cache = (PollingWorker.cycleEnd f d c).cache := by
  unfold PollingWorker.runOnce PollingWorker.cycleEnd
  rcases f.runOnce c d.updatedSince d.world d.cache with ⟨e | u, s⟩ <;> exact ⟨rfl, rfl⟩

/-- **A round** leaves what its cycle leaves, but for the outbox and the
    deliveries. -/
theorem round_cycleEnd (b : Bootstrap) (r : Round) (d : Daemon) :
    (b.round r d).2.world.db.rules = (PollingWorker.cycleEnd b.facade d r.cycle).world.db.rules ∧
      (b.round r d).2.world.db.attempts = (PollingWorker.cycleEnd b.facade d r.cycle).world.db.attempts ∧
      (b.round r d).2.world.submissions = (PollingWorker.cycleEnd b.facade d r.cycle).world.submissions ∧
      (b.round r d).2.cache = (PollingWorker.cycleEnd b.facade d r.cycle).cache := by
  obtain ⟨hworld, hcache⟩ := runOnce_cycleEnd b.facade r.cycle d
  rw [← hworld, ← hcache]
  rcases round_cases b r d with ⟨e, _, hres⟩ | ⟨_, hres⟩
  · rw [hres]
    exact ⟨rfl, rfl, rfl, rfl⟩
  · rw [hres]
    unfold OutboxPublisherWorker.runOnce
    refine ⟨?_, ?_, submissions_publishOutbox _ _, rfl⟩
    · rw [publishOutbox_frame]
    · rw [publishOutbox_frame]

/-- What the process has stored and sent after a round. -/
theorem world_round (r : Round) (d : Daemon) :
    (round b r (.running d)).world = (b.round r d).2.world := by
  unfold round
  simp only
  rcases b.round r d with ⟨e | u, d'⟩ <;> rfl

/-- A publish cycle returns if it can commit. -/
theorem publish_isOk (sink : OutboxSink) {e : PublishEnv} (w : World) :
    (OutboxPublisherWorker.runOnce sink e w).1.isOk = true ↔ e.commitFault = none := by
  have hfault : (e.call sink).commitFault = e.commitFault := rfl
  unfold OutboxPublisherWorker.runOnce
  rcases publishOutbox_cases (e.call sink) w with ⟨err, herr, hres⟩ | ⟨db, hnone, _, hres⟩
  · rw [hres]
    rw [hfault] at herr
    exact ⟨fun h => absurd h Bool.false_ne_true, fun h => absurd h (by simp [herr])⟩
  · rw [hres]
    rw [hfault] at hnone
    exact ⟨fun _ => hnone, fun _ => rfl⟩

/-- A round returns if its cycle does and its publish cycle can commit. -/
theorem round_isOk {r : Round} {d : Daemon} : (b.round r d).1.isOk = true ↔
    (PollingWorker.runOnce b.facade r.cycle d).1.isOk = true ∧ r.publish.commitFault = none := by
  rw [← publish_isOk b.sink (PollingWorker.runOnce b.facade r.cycle d).2.world]
  rcases round_cases b r d with ⟨e, he, hres⟩ | ⟨hok, hres⟩
  · rw [hres, he]
    exact ⟨fun h => absurd h Bool.false_ne_true, fun h => absurd h.1 Bool.false_ne_true⟩
  · rw [hres, hok]
    rcases (OutboxPublisherWorker.runOnce b.sink r.publish
      (PollingWorker.runOnce b.facade r.cycle d).2.world).1 with e | n
    · exact ⟨fun h => absurd h Bool.false_ne_true, fun h => absurd h.2 Bool.false_ne_true⟩
    · exact ⟨fun _ => ⟨rfl, rfl⟩, fun _ => rfl⟩

/-- A process is in its loop after a round if it was before, and the round
    returned. -/
theorem round_running {r : Round} {p : DaemonProcess} {d' : Daemon} :
    p.round b r = .running d' ↔ ∃ d, p = .running d ∧ b.round r d = (.ok (), d') := by
  rcases p with d | ⟨e, w⟩
  · unfold round
    rcases h : b.round r d with ⟨e | u, d₁⟩
    · simp [h]
    · simp [h, eq_comm]
  · simp [round]

theorem goesThrough_iff {p : DaemonProcess} {r : Round} :
    GoesThrough b p r ↔ ∃ d, p.round b r = .running d := by
  unfold GoesThrough
  simp only [← runOnce_isOk, ← round_isOk, round_running]
  constructor
  · rintro ⟨d, hp, hok⟩
    rcases hround : b.round r d with ⟨e | u, d'⟩
    · rw [hround] at hok
      exact absurd hok Bool.false_ne_true
    · exact ⟨d', d, hp, hround⟩
  · rintro ⟨d', d, hp, hround⟩
    exact ⟨d, hp, by rw [hround]; rfl⟩

/-- **What ends the daemon.** A process is still in its loop after some
    rounds if and only if in each of them the poll was answered, the rules
    of every order could be had and the publish cycle committed. An order
    that fails, a refused submission or sink, and a result that cannot be
    stored never end it. -/
theorem keeps_running_iff (b : Bootstrap) (d : Daemon) (rs : List Round) :
    (∃ d', (rounds b).run (.running d) rs = .running d') ↔
      ∀ p ∈ (rounds b).visits (.running d) rs, GoesThrough b p.1 p.2 := by
  refine (rounds b).run_iff (fun _ => True) (P := fun p => ∃ d', p = .running d')
    (fun _ _ _ _ => trivial) ?_ ?_ trivial ⟨d, rfl⟩ (fun _ _ => trivial)
  · intro p r _ _ _
    exact goesThrough_iff.symm
  · intro p r _ _ hrun
    obtain ⟨d', hd'⟩ := hrun
    obtain ⟨d₀, hd₀, _⟩ := round_running.mp hd'
    exact ⟨d₀, hd₀⟩

end DaemonProcess

/-! ## A call does not look at the ids handed out before -/

/-- The world with other ids handed out. -/
def World.withIssued (w : World) (ids : List String) : World := { w with issued := ids }

namespace ProcessCall

variable (uc : ProcessOrderUseCase) (c : ProcessCall) (w : World) (ids : List String)

theorem tryBlock_withIssued (n : Nat) (hash : String) (d : EnrichmentDecision) :
    c.tryBlock uc n hash d (w.withIssued ids) =
      ((c.tryBlock uc n hash d w).1, (c.tryBlock uc n hash d w).2.withIssued ids) := by
  unfold tryBlock submitEnrichment
  cases c.answer uc d <;> rfl

theorem exceptBlock_withIssued (n : Nat) (hash : String) (exc : PyErr) :
    c.exceptBlock uc n hash exc (w.withIssued ids) =
      ((c.exceptBlock uc n hash exc w).1, (c.exceptBlock uc n hash exc w).2.withIssued ids) := by
  have hdb : (w.withIssued ids).db = w.db := rfl
  unfold exceptBlock World.transact
  rw [hdb]
  rcases persistResult c.faults.failure (c.failureRecord n hash exc) w.db with ⟨_ | _, db⟩
  · rfl
  · by_cases hlimit : uc.maxProcessingAttempts ≤ n
    · simp only [if_pos hlimit]
      rcases moveToDeadLetter c.faults.deadLetter c.deadLetterRecord db with ⟨_ | _, db'⟩ <;> rfl
    · simp only [if_neg hlimit]
      rfl

theorem execute_withIssued : c.execute uc (w.withIssued ids) =
    ((c.execute uc w).1, (c.execute uc w).2.withIssued (ids ++ [c.correlationId])) := by
  have hissue : (w.withIssued ids).issue c.correlationId =
      (w.issue c.correlationId).withIssued (ids ++ [c.correlationId]) := rfl
  unfold execute
  rw [hissue]
  generalize w.issue c.correlationId = w₁
  have hdb : (w₁.withIssued (ids ++ [c.correlationId])).db = w₁.db := rfl
  simp only [hdb]
  rcases evaluate uc.runtime c.order c.rules c.now with _ | d
  · rfl
  · simp only
    rcases computeHash uc.runtime c.order d.enrichedFields with _ | hash
    · rfl
    · simp only
      split
      · rfl
      · split
        · unfold World.transact
          rcases persistResult c.faults.success _ w₁.db with ⟨_ | _, db⟩ <;> rfl
        · rw [tryBlock_withIssued]
          rcases c.tryBlock uc _ hash d w₁ with ⟨exc | _, w₂⟩
          · simp only [exceptBlock_withIssued]
          · rfl

end ProcessCall

/-! ## The daemon makes the calls of the processing machine -/

/-- The worlds agree up to the ids handed out, and `w` has handed out those
    of `t`. The cycles of the daemon take ids of their own. -/
structure SameStore (w t : World) : Prop where
  db : w.db = t.db
  submissions : w.submissions = t.submissions
  deliveries : w.deliveries = t.deliveries
  issued : ∀ id ∈ t.issued, id ∈ w.issued

namespace SameStore

variable {w t : World}

theorem eq_withIssued (h : SameStore w t) : w = t.withIssued w.issued := by
  obtain ⟨hdb, hsubmissions, hdeliveries, _⟩ := h
  obtain ⟨_, _, _, _⟩ := w
  simp only at hdb hsubmissions hdeliveries
  rw [hdb, hsubmissions, hdeliveries]
  rfl

theorem issue (h : SameStore w t) (id : String) : SameStore (w.issue id) t :=
  ⟨h.db, h.submissions, h.deliveries, fun x hx => List.mem_append_left _ (h.issued x hx)⟩

/-- A call does the same in both. -/
theorem process (h : SameStore w t) (uc : ProcessOrderUseCase) (c : ProcessCall) :
    SameStore (c.execute uc w).2 (c.execute uc t).2 := by
  rw [h.eq_withIssued, c.execute_withIssued uc t w.issued]
  refine ⟨rfl, rfl, rfl, ?_⟩
  intro id hid
  rw [(c.execute_issues uc t).1] at hid
  show id ∈ w.issued ++ [c.correlationId]
  rcases List.mem_append.mp hid with hid | hid
  · exact List.mem_append_left _ (h.issued id hid)
  · exact List.mem_append_right _ hid

theorem publish (h : SameStore w t) (c : PublishCall) :
    SameStore (publishOutbox c w).2 (publishOutbox c t).2 := by
  have hw := h.eq_withIssued
  have hsame : (publishOutbox c w).2 = ((publishOutbox c t).2).withIssued w.issued := by
    conv_lhs => rw [hw]
    have hdb : (t.withIssued w.issued).db = t.db := rfl
    rcases publishOutbox_cases c t with ⟨e, _, hres⟩ | ⟨db, _, _, hres⟩
    all_goals
      unfold publishOutbox at hres ⊢
      rw [hdb]
      rcases hloop : publishLoop c (c.batch t.db) (Session.enter t.db) 0 [] with ⟨s, n, log⟩
      rcases hcommit : DbSession.commit s c.commitFault t.db with ⟨_ | _, db'⟩ <;>
        simp only [hcommit] <;> rfl
  have hissued : (publishOutbox c t).2.issued = t.issued := by
    rcases publishOutbox_cases c t with ⟨e, _, hres⟩ | ⟨db, _, _, hres⟩ <;> rw [hres] <;> rfl
  rw [hsame]
  exact ⟨rfl, rfl, rfl, fun id hid => h.issued id (hissued ▸ hid)⟩

end SameStore

namespace DaemonProcess

variable {b : Bootstrap}

theorem NewIds.mono {issued issued' ids : List String} (h : NewIds issued ids)
    (hsub : ∀ id ∈ issued', id ∈ issued) : NewIds issued' ids :=
  ⟨h.nodup, h.uuid, fun id hid hin => h.unused id hid (hsub id hin)⟩

/-- The first of some new ids, and the others once it has been handed out. -/
theorem NewIds.cons {issued ids : List String} {id : String} (h : NewIds issued (id :: ids)) :
    (isUuid id = true ∧ id ∉ issued) ∧ NewIds (issued ++ [id]) ids := by
  obtain ⟨hnotin, hnodup⟩ := List.nodup_cons.mp h.nodup
  refine ⟨⟨h.uuid id List.mem_cons_self, h.unused id List.mem_cons_self⟩, hnodup,
    fun x hx => h.uuid x (List.mem_cons_of_mem _ hx), ?_⟩
  intro x hx hin
  rcases List.mem_append.mp hin with hin | hin
  · exact h.unused x (List.mem_cons_of_mem _ hx) hin
  · rw [List.mem_singleton.mp hin] at hx
    exact hnotin hx

/-- The id of the first order of a batch, and those of the others. -/
theorem NewIds.batch_cons {issued : List String} {env : Nat → OrderEnv} {i n : Nat}
    (h : NewIds issued (batchIds env i (n + 1))) :
    (isUuid (env i).correlationId = true ∧ (env i).correlationId ∉ issued) ∧
      NewIds (issued ++ [(env i).correlationId]) (batchIds env (i + 1) n) := by
  refine NewIds.cons ?_
  unfold batchIds at h ⊢
  rwa [List.range'_succ, List.map_cons] at h

/-- The loop over a batch makes one call after another, up to an order
    whose rules cannot be loaded. -/
theorem handleOrders_calls {f : EnrichmentFacade} {env : Nat → OrderEnv}
    (orders : List ExternalOrder) (i : Nat) {s : LoopState} {t : World}
    (hst : SameStore s.world t) (hids : NewIds t.issued (batchIds env i orders.length)) :
    ∃ js, (Processing.machine f.process).Legal t js ∧
      SameStore (f.handleOrders env i orders s).2.world ((Processing.machine f.process).run t js) := by
  induction orders generalizing i s t with
  | nil => exact ⟨[], fun _ hp => absurd hp List.not_mem_nil, hst⟩
  | cons order orders ih =>
    unfold EnrichmentFacade.handleOrders
    cases hh : f.handleOrder (env i) order s with
    | error e => exact ⟨[], fun _ hp => absurd hp List.not_mem_nil, hst⟩
    | ok s' =>
      obtain ⟨rules, _, hworld, _, _⟩ := EnrichmentFacade.handleOrder_ok hh
      let call := (env i).processCall order rules
      -- the ids of the orders that follow are still unused after this call
      obtain ⟨hfresh, hrest⟩ := NewIds.batch_cons hids
      have hst' : SameStore s'.world (call.execute f.process t).2 := by
        rw [hworld]
        exact hst.process f.process call
      rw [← show (call.execute f.process t).2.issued = t.issued ++ [(env i).correlationId] from
        (call.execute_issues f.process t).1] at hrest
      obtain ⟨js, hjs, hrel⟩ := ih (i + 1) hst' hrest
      exact ⟨.process call :: js, ((Processing.machine f.process).legal_cons _ _ _).mpr ⟨hfresh, hjs⟩,
        hrel⟩

/-- A cycle makes one call after another. -/
theorem runOnce_calls {f : EnrichmentFacade} {c : Cycle} {d : Daemon} {t : World}
    (hst : SameStore d.world t)
    (hids : ∀ orders, c.poll d.updatedSince f.pollBatchSize = .ok orders →
      NewIds d.world.issued (batchIds c.env 0 orders.length)) :
    ∃ js, (Processing.machine f.process).Legal t js ∧
      SameStore (PollingWorker.runOnce f c d).2.world ((Processing.machine f.process).run t js) := by
  rw [(runOnce_cycleEnd f c d).1]
  unfold PollingWorker.cycleEnd
  rcases f.runOnce_cases c d.updatedSince d.world d.cache with ⟨e, _, hend⟩ | ⟨orders, hpoll, hend⟩
  · rw [hend]
    exact ⟨[], fun _ hp => absurd hp List.not_mem_nil, hst.issue c.runId⟩
  · rw [hend]
    exact handleOrders_calls orders 0 (hst.issue c.runId) ((hids orders hpoll).mono hst.issued)

/-- A round is the calls of its cycle and, if that returned, a publish call. -/
theorem round_calls {r : Round} {d : Daemon} {t : World} (hst : SameStore d.world t)
    (hids : FreshIds b (.running d) (.round r)) :
    ∃ js, (Processing.machine b.facade.process).Legal t js ∧
      SameStore (b.round r d).2.world ((Processing.machine b.facade.process).run t js) := by
  obtain ⟨js, hjs, hrel⟩ := runOnce_calls hst hids
  rcases round_cases b r d with ⟨e, _, hres⟩ | ⟨_, hres⟩
  · rw [hres]
    exact ⟨js, hjs, hrel⟩
  · rw [hres]
    refine ⟨js ++ [.publish (r.publish.call b.sink)], ?_, ?_⟩
    · rw [Machine.legal_append, Machine.legal_cons]
      exact ⟨hjs, trivial, fun _ hp => absurd hp List.not_mem_nil⟩
    · rw [Machine.run_append]
      exact hrel.publish (r.publish.call b.sink)

theorem daemon_simulates (b : Bootstrap) : Simulates (machine b)
    (Processing.machine b.facade.process) fun p t => SameStore p.world t where
  init p hp := by
    obtain ⟨rules, rfl⟩ := hp
    exact ⟨World.fresh rules, ⟨rules, rfl⟩, rfl, rfl, rfl, fun _ h => h⟩
  step p t i hst hguard := by
    have hstutter : ∃ js, (Processing.machine b.facade.process).Legal t js ∧
        SameStore p.world ((Processing.machine b.facade.process).run t js) :=
      ⟨[], fun _ hp => absurd hp List.not_mem_nil, hst⟩
    match i, p with
    | .restart, p => exact hstutter
    | .round r, .stopped e w => exact hstutter
    | .round r, .running d =>
      obtain ⟨js, hjs, hrel⟩ := round_calls hst hguard
      refine ⟨js, hjs, ?_⟩
      show SameStore (round b r (.running d)).world _
      rw [world_round]
      exact hrel

/-- What the calls of the processing machine keep. -/
theorem records_of_reachable {uc : ProcessOrderUseCase} {t : World}
    (ht : (Processing.machine uc).Reachable t) :
    InStep t.db ∧ Numbered t.db ∧ SuccessAccepted t := by
  refine Machine.reachable_induction _
    (I := fun t => InStep t.db ∧ Numbered t.db ∧ SuccessAccepted t) ?_ ?_ ht
  · intro t hinit
    obtain ⟨rules, rfl⟩ := hinit
    exact ⟨InStep.fresh rules, Numbered.fresh rules, fun m hm => absurd hm List.not_mem_nil⟩
  · intro t i h _
    obtain ⟨hstep, hnumbered, haccepted⟩ := h
    refine ⟨hstep.preserve_step uc i, hnumbered.preserve_step uc i, ?_⟩
    match i with
    | .process c => exact haccepted.preserve_process uc c
    | .publish c => exact haccepted.preserve_publish c

/-- **The daemon over its lifetimes.** Wherever the rounds stop, and however
    often the process is started anew once it has ended, what is stored and
    sent could have come from single calls, one after another. So attempts,
    events and processed orders are in step, the attempts of every order are
    numbered without gaps, and every success event that is not a no-match
    event follows an accepted submission. -/
theorem daemon_within_processing (b : Bootstrap) {p : DaemonProcess} (hp : (machine b).Reachable p) :
    (∃ t, (Processing.machine b.facade.process).Reachable t ∧ SameStore p.world t) ∧
      InStep p.world.db ∧ Numbered p.world.db ∧ SuccessAccepted p.world := by
  refine ⟨(daemon_simulates b).reachable hp, ?_⟩
  refine (daemon_simulates b).invariant
    (Q := fun p => InStep p.world.db ∧ Numbered p.world.db ∧ SuccessAccepted p.world)
    (fun t ht => records_of_reachable ht) ?_ hp
  intro p t hst h
  unfold SuccessAccepted AcceptedFor at h ⊢
  rw [hst.db, hst.submissions]
  exact h

end DaemonProcess

namespace Sample

def quiet : PublishEnv where
  scan := .physical
  post _ _ _ := .raised (.transport "not called")
  statusMessage _ := ""
  markedAt _ := eleven
  commitFault := none

def bootstrap : Bootstrap := ⟨facade, outboxSink "log" ""⟩

/-- A round over some orders; every submission is accepted. -/
def round (orders : List ExternalOrder) : Round := ⟨calmCycle orders nine, quiet⟩

end Sample

namespace DaemonProcess

theorem freshIds_round (orders : List ExternalOrder) (horders : orders.length ≤ 2) :
    FreshIds Sample.bootstrap (start (World.fresh Sample.rules)) (.round (Sample.round orders)) := by
  intro orders' hpoll
  have hlen : orders'.length ≤ 2 := by
    rw [← Except.ok.inj hpoll]
    exact horders
  have htwo : NewIds [] [Sample.correlationId, Sample.secondId] :=
    ⟨by decide, by decide, fun _ _ => List.not_mem_nil⟩
  obtain h | h | h : orders'.length = 0 ∨ orders'.length = 1 ∨ orders'.length = 2 := by omega
  · rw [h]
    exact ⟨List.nodup_nil, fun _ hid => absurd hid List.not_mem_nil,
      fun _ hid => absurd hid List.not_mem_nil⟩
  · rw [h]
    exact ⟨List.nodup_singleton _, fun id hid => htwo.uuid id (List.mem_cons.mpr
      (Or.inl (List.mem_singleton.mp hid))), fun _ _ => List.not_mem_nil⟩
  · rw [h]
    exact htwo

theorem daemon_within_processing_sample :
    let p := (machine Sample.bootstrap).run (start (World.fresh Sample.rules))
      [.round (Sample.round [Sample.order "ORD-1" Sample.nine]), .restart]
    InStep p.world.db ∧ p.world.deliveries.length = 1 := by
  intro p
  have hp : (machine Sample.bootstrap).Reachable p := by
    refine ⟨_, _, ⟨Sample.rules, rfl⟩, ?_, rfl⟩
    rw [Machine.legal_cons, Machine.legal_cons]
    exact ⟨freshIds_round _ (by decide), trivial, fun _ hp => absurd hp List.not_mem_nil⟩
  exact ⟨(daemon_within_processing Sample.bootstrap hp).2.1, by rfl⟩

end DaemonProcess

end RulesEnrichment
