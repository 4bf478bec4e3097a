import RulesEnrichment.Administration
import RulesEnrichment.DaemonRuns
import RulesEnrichment.Replay

/-! # The daemon and its operator

    The daemon on a database that migrations and `seed-rules` are run on,
    between its rounds. It starts on sound rules, and the commands store no
    others, so what the use cases do not record, an order whose rules
    raise, never comes up: where the results of the orders can be stored,
    the store has all that the cycles report.

    * `reports_in_store`: the attempts are, one for one and in their order,
      the orders that were handled and not skipped, and the failures are the
      submissions that the external system refused. -/

namespace RulesEnrichment

open StepMachine UnitOfWork PollingWorker DaemonProcess

/-! ## What is reported of an order -/

/-- The use case returned that the order was a duplicate. -/
def Handled.skipped (h : Handled) : Bool :=
  match h.outcome with
  | .ok (_, _, skip) => skip
  | .error _ => false

/-- The order and the id under which it was handled. -/
def Handled.ids (h : Handled) : String × String := (h.call.order.orderId, h.call.correlationId)

/-- What the attempts should have of a handled order. -/
def Handled.entry (h : Handled) : (String × String) × ProcessingStatus :=
  (h.ids, if h.failed then .FAILED else .SUCCESS)

def ProcessingAttempt.entry (a : ProcessingAttempt) : (String × String) × ProcessingStatus :=
  ((a.orderId, a.correlationId), a.status)

def Submission.ids (s : Submission) : String × String := (s.orderId, s.correlationId)

/-- The submissions that the external system refused. -/
def World.refused (w : World) : List (String × String) :=
  (w.submissions.filter fun s => !s.accepted).map Submission.ids

/-! ## The machine -/

/-- The daemon process on its database. -/
structure Deployment where
  process : DaemonProcess
  /-- The orders that the cycles have handled. -/
  handled : List Handled
  /-- The database's `alembic_version`. -/
  revision : Revision
  /-- The latest time that a command has read. -/
  time : Int

/-- The process, once a command has written to the database. -/
def DaemonProcess.withDb (db : Database) : DaemonProcess → DaemonProcess
  | .running d => .running { d with world := { d.world with db := db } }
  | .stopped e w => .stopped e { w with db := db }

@[simp] theorem DaemonProcess.world_withDb (db : Database) (p : DaemonProcess) :
    (p.withDb db).world = { p.world with db := db } := by
  cases p <;> rfl

theorem DaemonProcess.withDb_running {db : Database} {p : DaemonProcess} {d' : Daemon}
    (h : p.withDb db = .running d') :
    ∃ d, p = .running d ∧ d' = { d with world := { d.world with db := db } } := by
  cases p with
  | running d =>
    cases h
    exact ⟨d, rfl, rfl⟩
  | stopped e w => cases h

/-- The orders that the process handles. -/
def handledIn (b : Bootstrap) : DaemonProcess → DaemonProcess.Input → List Handled
  | .running d, .round r => (cycleEnd b.facade d r.cycle).handled
  | _, _ => []

/-- The clock can be converted to UTC, and the result can be stored. -/
structure OrderEnv.Storing (e : OrderEnv) : Prop where
  clock : ∃ i, e.now.asUtcInstant = .ok i
  success : e.faults.success = none
  failure : e.faults.failure = none

namespace Deployment

inductive Input where
  | daemon (i : DaemonProcess.Input)
  | command (cmd : Command)

def administration (s : Deployment) : Administration := ⟨⟨s.revision, s.process.world.db⟩, s.time⟩

def step (b : Bootstrap) (s : Deployment) : Input → Deployment
  | .daemon i => { s with
      process := s.process.step b i
      handled := s.handled ++ handledIn b s.process i }
  | .command cmd =>
    let a := s.administration.step cmd
    { s with
      process := s.process.withDb a.db
      revision := a.migrated.revision
      time := a.time }

/-- The promises of the id generator, the store, the clocks and the
    operator, who does not drop the tables. A query for rules may fail, and
    so may a publish cycle, and what a call does once it has recorded a
    failure. -/
def Promised (b : Bootstrap) (s : Deployment) : Input → Prop
  | .daemon (.round r) => s.process.FreshIds b (.round r) ∧ ∀ j, (r.cycle.env j).Storing
  | .daemon .restart => True
  | .command cmd => s.administration.guard cmd

/-- Rounds, restarts and commands, from sound rules on. -/
def machine (b : Bootstrap) : Machine Deployment Input where
  init s := ∃ rules revision time, (∀ r ∈ rules.rows, r.Sound b.facade.process.runtime) ∧
    s = ⟨.start (World.fresh rules), [], revision, time⟩
  guard := Promised b
  step := step b

end Deployment

/-! ## Sound rules -/

/-- The rules of the table are sound, and so are those in the cache. -/
structure SoundRules (rt : Runtime) (db : Database) (cache : RulesCache) : Prop where
  table : ∀ r ∈ db.rules.rows, r.Sound rt
  cached : ∀ key e, cache key = some e → ∀ r ∈ e.data, r.Sound rt

namespace SoundRules

variable {rt : Runtime} {f : EnrichmentFacade} {db : Database} {cache : RulesCache}

theorem restart (h : ∀ r ∈ db.rules.rows, r.Sound rt) : SoundRules rt db .empty :=
  ⟨h, fun _ _ he => by cases he⟩

/-- A refresh returns sound rules, and caches no others. -/
theorem refresh (h : SoundRules rt db cache) {r : RefreshCall} {rules : List EnrichmentRule}
    {cache' : RulesCache} (hr : refreshRules r db cache = (.ok rules, cache')) :
    (∀ x ∈ rules, x.Sound rt) ∧ SoundRules rt db cache' := by
  have hload : ∀ x ∈ r.load db, x.Sound rt :=
    fun x hx => h.table x (EnrichmentRuleRepository.mem_listActiveRules.mp hx).1
  obtain ⟨hcached, e, he, rfl, _⟩ :=
    refreshRules_rule (P := fun _ e => ∀ x ∈ e.data, x.Sound rt) hr h.cached hload
  exact ⟨he, h.table, hcached⟩

/-- An order is handled with sound rules. -/
theorem handleOrder {e : OrderEnv} {order : ExternalOrder} {s s' : LoopState}
    (h : SoundRules rt s.world.db s.cache) (hstep : f.handleOrder e order s = .ok s') :
    SoundRules rt s'.world.db s'.cache ∧ ∃ rules, (∀ r ∈ rules, r.Sound rt) ∧
      s'.world = ((e.processCall order rules).execute f.process s.world).2 ∧
      s'.handled = s.handled ++ [⟨e.processCall order rules,
        ((e.processCall order rules).execute f.process s.world).1⟩] := by
  obtain ⟨rules, hrefresh, hworld, _, hhandled⟩ := EnrichmentFacade.handleOrder_ok hstep
  obtain ⟨hrules, hkept⟩ := h.refresh hrefresh
  refine ⟨⟨?_, hkept.cached⟩, rules, hrules, hworld, hhandled⟩
  rw [hworld, ProcessCall.rules_execute]
  exact h.table

theorem cycleEnd {d : Daemon} (h : SoundRules rt d.world.db d.cache) (c : Cycle) :
    SoundRules rt (cycleEnd f d c).world.db (cycleEnd f d c).cache :=
  EnrichmentFacade.runOnce_induction (I := fun s => SoundRules rt s.world.db s.cache)
    ⟨h.table, h.cached⟩ fun _ _ _ _ _ _ _ h hstep => (h.handleOrder hstep).1

end SoundRules

/-! ## What a call stores -/

/-- From `w` to `w'`, the store has got what is reported of the orders. -/
structure Reported (w w' : World) (hs : List Handled) : Prop where
  attempts : w'.db.attempts.map ProcessingAttempt.entry =
    w.db.attempts.map ProcessingAttempt.entry ++
      (hs.filter fun h => !h.skipped).map Handled.entry
  refused : w'.refused = w.refused ++ (hs.filter Handled.failed).map Handled.ids

namespace Reported

variable {w w' w'' : World} {hs hs' : List Handled}

/-- Nothing is recorded or submitted of orders that were skipped. -/
theorem nothing (hattempts : w'.db.attempts = w.db.attempts)
    (hsubs : w'.submissions = w.submissions) (hskipped : (hs.filter fun h => !h.skipped) = [])
    (hnone : hs.filter Handled.failed = []) : Reported w w' hs := by
  constructor
  · rw [hattempts, hskipped]
    exact (List.append_nil _).symm
  · unfold World.refused
    rw [hsubs, hnone]
    exact (List.append_nil _).symm

/-- A result is recorded, after some submissions. -/
theorem recorded {r : ResultRecord} {db : Database} {ss : List Submission}
    (hrec : Recorded r w.db db) (hattempts : w'.db.attempts = db.attempts)
    (hsubs : w'.submissions = w.submissions ++ ss)
    (hentry : [r.attempt.entry] = (hs.filter fun h => !h.skipped).map Handled.entry)
    (hrefused : (ss.filter fun s => !s.accepted).map Submission.ids =
      (hs.filter Handled.failed).map Handled.ids) : Reported w w' hs := by
  constructor
  · rw [hattempts, hrec.attempts, List.map_append, ← hentry]
    rfl
  · unfold World.refused
    rw [hsubs, List.filter_append, List.map_append, hrefused]

theorem append (h : Reported w w' hs) (h' : Reported w' w'' hs') : Reported w w'' (hs ++ hs') := by
  constructor
  · rw [h'.attempts, h.attempts, List.filter_append, List.map_append, List.append_assoc]
  · rw [h'.refused, h.refused, List.filter_append, List.map_append, List.append_assoc]

end Reported

/-- **A call** whose rules can be evaluated and whose results can be stored
    fails if and only if its submission is refused, and unless it is skipped
    there is an attempt that says which. -/
theorem reported_execute (uc : ProcessOrderUseCase) {c : ProcessCall} {w : World}
    {d : EnrichmentDecision} (heval : evaluate uc.runtime c.order c.rules c.now = .ok d)
    (hsuccess : c.faults.success = none) (hfailure : c.faults.failure = none)
    (hfree : w.db.outbox.find? (messageIdOf c.correlationId c.order.orderId) = none) :
    Reported w (c.execute uc w).2 [⟨c, (c.execute uc w).1⟩] := by
  have hstep := c.execute_step uc w
  generalize (c.execute uc w).1 = res, (c.execute uc w).2 = w' at hstep ⊢
  cases hstep with
  | evaluationError e hraise => cases heval.symm.trans hraise
  | duplicate d hash hdec hdup => exact .nothing rfl rfl rfl rfl
  | noMatch d hash db hdec hdup hmatch hrec hfault =>
    have hsubs : w.submissions = w.submissions ++ [] := (List.append_nil _).symm
    exact .recorded hrec rfl hsubs rfl rfl
  | noMatchRefused d hash e hdec hdup hmatch hrefused =>
    exact absurd hrefused (ProcessCall.not_refused hsuccess hfree)
  | submits d hash hsub hstep =>
    cases hstep with
    | succeeded db hanswer hrec hfault => exact .recorded hrec rfl rfl rfl rfl
    | failureRefused accepted exc e htry hrefused =>
      exact absurd hrefused (ProcessCall.not_refused hfailure hfree)
    | failed accepted exc db htry hrec hfault hlimit =>
      obtain ⟨_, rfl⟩ := htry.rejects hsuccess hfree
      exact .recorded hrec rfl rfl rfl rfl
    | deadLetterRefused accepted exc e db htry hrec hfault hlimit hrefused =>
      obtain ⟨_, rfl⟩ := htry.rejects hsuccess hfree
      exact .recorded hrec rfl rfl rfl rfl
    | deadLettered accepted exc db db' htry hrec hfault hlimit hdead hjson =>
      obtain ⟨_, rfl⟩ := htry.rejects hsuccess hfree
      exact .recorded hrec hdead.attempts rfl rfl rfl

/-! ## Cycles and rounds -/

section

variable {f : EnrichmentFacade}

/-- The loop over a batch. The ids that its calls take are new in `t`, which
    has the same store. -/
theorem reported_handleOrders (hrt : f.process.runtime.Documented) {env : Nat → OrderEnv}
    (henv : ∀ i, (env i).Storing) (orders : List ExternalOrder) (i : Nat) {s : LoopState}
    {t : World} (hsound : SoundRules f.process.runtime s.world.db s.cache) (hissued : IdsIssued t)
    (hst : SameStore s.world t) (hids : NewIds t.issued (batchIds env i orders.length)) :
    ∃ hs, (f.handleOrders env i orders s).2.handled = s.handled ++ hs ∧
      Reported s.world (f.handleOrders env i orders s).2.world hs := by
  induction orders generalizing i s t with
  | nil => exact ⟨[], (List.append_nil _).symm, .nothing rfl rfl rfl rfl⟩
  | cons order orders ih =>
    unfold EnrichmentFacade.handleOrders
    cases hh : f.handleOrder (env i) order s with
    | error e => exact ⟨[], (List.append_nil _).symm, .nothing rfl rfl rfl rfl⟩
    | ok s' =>
      obtain ⟨hsound', rules, hrules, hworld, hhandled⟩ := hsound.handleOrder hh
      obtain ⟨hfresh, hrest⟩ := NewIds.batch_cons hids
      obtain ⟨j, hclock⟩ := (henv i).clock
      have hfree : s.world.db.outbox.find? (messageIdOf (env i).correlationId order.orderId) =
          none := by
        rw [hst.db]
        exact hissued.messageId_free hfresh.1 hfresh.2 order.orderId
      have heval := evaluate_of_sound hrt hclock hrules order
      have hone := reported_execute f.process (c := (env i).processCall order rules) heval
        (henv i).success (henv i).failure hfree
      rw [← hworld] at hone
      -- the orders that follow, after this call
      have hst' : SameStore s'.world (((env i).processCall order rules).execute f.process t).2 := by
        rw [hworld]
        exact hst.process f.process _
      rw [← show (((env i).processCall order rules).execute f.process t).2.issued =
        t.issued ++ [(env i).correlationId] from
          (((env i).processCall order rules).execute_issues f.process t).1] at hrest
      obtain ⟨hs, hmore, hreported⟩ :=
        ih (i + 1) hsound' (hissued.preserve_process hfresh.1) hst' hrest
      refine ⟨_ :: hs, ?_, hone.append hreported⟩
      simp only
      rw [hmore, hhandled, List.append_assoc]
      rfl

/-- A cycle, completed or not. -/
theorem reported_cycleEnd (hrt : f.process.runtime.Documented) {c : Cycle}
    (henv : ∀ i, (c.env i).Storing) {d : Daemon} {t : World}
    (hsound : SoundRules f.process.runtime d.world.db d.cache) (hissued : IdsIssued t)
    (hst : SameStore d.world t)
    (hids : ∀ orders, c.poll d.updatedSince f.pollBatchSize = .ok orders →
      NewIds d.world.issued (batchIds c.env 0 orders.length)) :
    Reported d.world (cycleEnd f d c).world (cycleEnd f d c).handled := by
  unfold cycleEnd
  rcases f.runOnce_cases c d.updatedSince d.world d.cache with ⟨e, _, hend⟩ | ⟨orders, hpoll, hend⟩
  · rw [hend]
    exact .nothing rfl rfl rfl rfl
  · obtain ⟨hs, hhandled, hreported⟩ := reported_handleOrders hrt henv orders 0
      (s := ⟨d.world.issue c.runId, d.cache, 0, 0, EnrichmentFacade.startCursor c d.updatedSince, []⟩)
      ⟨hsound.table, hsound.cached⟩ hissued (hst.issue c.runId) ((hids orders hpoll).mono hst.issued)
    rw [hend, hhandled]
    exact ⟨hreported.attempts, hreported.refused⟩

end

/-! ## Over all runs -/

namespace Deployment

/-- Sound rules, ids that were handed out, and the reports in the store. -/
structure Accounted (b : Bootstrap) (s : Deployment) : Prop where
  table : ∀ r ∈ s.process.world.db.rules.rows, r.Sound b.facade.process.runtime
  cached : ∀ d, s.process = .running d → SoundRules b.facade.process.runtime d.world.db d.cache
  ids : ∃ t, IdsIssued t ∧ SameStore s.process.world t
  attempts : s.process.world.db.attempts.map ProcessingAttempt.entry =
    (s.handled.filter fun h => !h.skipped).map Handled.entry
  refused : s.process.world.refused = (s.handled.filter Handled.failed).map Handled.ids

namespace Accounted

variable {b : Bootstrap} {s : Deployment}

/-- The process goes on to `p`, and handles some orders. -/
theorem extend (h : Accounted b s) {p : DaemonProcess} {hs : List Handled}
    (htable : ∀ r ∈ p.world.db.rules.rows, r.Sound b.facade.process.runtime)
    (hcached : ∀ d, p = .running d → SoundRules b.facade.process.runtime d.world.db d.cache)
    (hids : ∃ t, IdsIssued t ∧ SameStore p.world t) (hreported : Reported s.process.world p.world hs) :
    Accounted b { s with process := p, handled := s.handled ++ hs } where
  table := htable
  cached := hcached
  ids := hids
  attempts := by
    rw [hreported.attempts, h.attempts, List.filter_append, List.map_append]
  refused := by
    rw [hreported.refused, h.refused, List.filter_append, List.map_append]

/-- The calls of a round, or none, on the world whose ids they take. -/
theorem ids_step (h : Accounted b s) {i : DaemonProcess.Input} (hi : s.process.FreshIds b i) :
    ∃ t, IdsIssued t ∧ SameStore (s.process.step b i).world t := by
  obtain ⟨t, hissued, hst⟩ := h.ids
  obtain ⟨js, hjs, hst'⟩ := (daemon_simulates b).step s.process t i hst hi
  exact ⟨_, (Processing.machine b.facade.process).run_induction
    (fun _ _ h hfresh => h.preserve_step b.facade.process hfresh) hissued hjs, hst'⟩

theorem preserve_round (h : Accounted b s) (hrt : b.facade.process.runtime.Documented) {r : Round}
    (hfresh : s.process.FreshIds b (.round r)) (henv : ∀ j, (r.cycle.env j).Storing) :
    Accounted b (s.step b (.daemon (.round r))) := by
  have hids := h.ids_step hfresh
  obtain ⟨p, hs, revision, time⟩ := s
  match p with
  | .stopped e w => exact h.extend h.table h.cached hids (.nothing rfl rfl rfl rfl)
  | .running d =>
    obtain ⟨t, hissued, hst⟩ := h.ids
    obtain ⟨hrules, hattempts, hsubs, hcache⟩ := round_cycleEnd b r d
    have hsound := (h.cached d rfl).cycleEnd (f := b.facade) r.cycle
    have hround : SoundRules b.facade.process.runtime (b.round r d).2.world.db (b.round r d).2.cache :=
      ⟨by rw [hrules]; exact hsound.table, by rw [hcache]; exact hsound.cached⟩
    have hcycle := reported_cycleEnd hrt henv (h.cached d rfl) hissued hst hfresh
    refine h.extend ?_ ?_ hids ?_
    · show ∀ x ∈ (DaemonProcess.round b r (.running d)).world.db.rules.rows, _
      rw [world_round]
      exact hround.table
    · intro d' hrun
      obtain ⟨d₀, hd₀, hres⟩ := (round_running (p := .running d)).mp hrun
      cases hd₀
      rw [hres] at hround
      exact hround
    · -- what follows the cycle publishes
      have hworld : Reported (cycleEnd b.facade d r.cycle).world
          (DaemonProcess.round b r (.running d)).world [] := by
        rw [world_round]
        exact .nothing hattempts hsubs rfl rfl
      have hall := hcycle.append hworld
      rwa [List.append_nil] at hall

theorem preserve_restart (h : Accounted b s) : Accounted b (s.step b (.daemon .restart)) := by
  have hids := h.ids_step (i := .restart) (by cases s.process <;> trivial)
  refine h.extend h.table ?_ hids ?_
  · rintro d ⟨⟩
    exact .restart h.table
  · have hnone : handledIn b s.process .restart = [] := by cases s.process <;> rfl
    rw [hnone]
    exact .nothing rfl rfl rfl rfl

/-- A command writes rules, and no others than sound ones. -/
theorem preserve_command (h : Accounted b s) {cmd : Command}
    (hg : s.administration.guard cmd) : Accounted b (s.step b (.command cmd)) := by
  have htable : ∀ r ∈ (s.administration.step cmd).db.rules.rows,
      r.Sound b.facade.process.runtime :=
    Administration.rules_step (fun r hr => (hr.wellMade _).sound) h.table hg
  have hothers : Administration.OthersKept s.process.world.db s.administration.db :=
    ⟨rfl, fun _ _ => rfl⟩
  have htables := (Administration.othersKept_step hg hothers).tables
  have hprocess : (s.step b (.command cmd)).process =
      s.process.withDb (s.administration.step cmd).db := rfl
  generalize (s.administration.step cmd).db = db at htable htables hprocess
  refine ⟨?_, ?_, ?_, ?_, ?_⟩
  · rw [hprocess, world_withDb]
    exact htable
  · intro d' hrun
    rw [hprocess] at hrun
    obtain ⟨d, hd, rfl⟩ := withDb_running hrun
    exact ⟨htable, (h.cached d hd).cached⟩
  · obtain ⟨t, hissued, hst⟩ := h.ids
    rw [hprocess, world_withDb]
    refine ⟨{ t with db := db }, ?_, rfl, hst.submissions, hst.deliveries, hst.issued⟩
    rw [htables, hst.db]
    exact ⟨hissued.uuid, hissued.attempts, hissued.messages, hissued.deadLetter,
      hissued.submissions⟩
  · rw [hprocess, world_withDb, htables]
    exact h.attempts
  · rw [hprocess, world_withDb]
    exact h.refused

end Accounted

/-- **Reports and the store.** Let the daemon start on sound rules, and run
    with a good clock and a store that takes the results of the orders. Over
    all its lifetimes, each of which ends between rounds or by an exception,
    whatever else fails, and whichever commands are run between its rounds,
    down to the initial schema, the attempts are then, one for one and in
    their order, the orders that its cycles handled and did not skip, each
    with what came of it. And an order failed if and only if the external
    system refused what was submitted for it: the failures are the refused
    submissions, one for one and in their order. -/
theorem reports_in_store (b : Bootstrap) (hrt : b.facade.process.runtime.Documented)
    {s : Deployment} (hs : (machine b).Reachable s) :
    s.process.world.db.attempts.map ProcessingAttempt.entry =
        (s.handled.filter fun h => !h.skipped).map Handled.entry ∧
      (s.process.world.submissions.filter fun x => !x.accepted).map Submission.ids =
        (s.handled.filter Handled.failed).map Handled.ids := by
  have haccounted : Accounted b s := by
    refine Machine.reachable_induction _ ?_ ?_ hs
    · rintro s ⟨rules, revision, time, hsound, rfl⟩
      refine ⟨hsound, ?_, ⟨World.fresh rules, IdsIssued.fresh rules, rfl, rfl, rfl, fun _ h => h⟩,
        rfl, rfl⟩
      rintro d ⟨⟩
      exact .restart hsound
    · intro s i h hi
      match i with
      | .daemon (.round r) => exact h.preserve_round hrt hi.1 hi.2
      | .daemon .restart => exact h.preserve_restart
      | .command cmd => exact h.preserve_command hi
  exact ⟨haccounted.attempts, haccounted.refused⟩

end Deployment

namespace Sample

/-- `seed-rules` on an empty table, a round with two orders, the first of
    which is refused, and a restart. -/
def operated : List Deployment.Input :=
  [.command (.seed Administration.firstSeed), .daemon (.round ⟨refusingCycle, quiet⟩),
    .daemon .restart]

def deployment : Deployment :=
  (Deployment.machine bootstrap).run ⟨.start (World.fresh .empty), [], .initial, 0⟩ operated

theorem reachable_deployment : (Deployment.machine bootstrap).Reachable deployment := by
  refine ⟨_, operated, ⟨.empty, .initial, 0, fun _ hr => absurd hr List.not_mem_nil, rfl⟩, ?_, rfl⟩
  unfold operated
  simp only [Machine.legal_cons]
  refine ⟨⟨rfl, rfl⟩, ⟨?_, ?_⟩, trivial, fun _ hp => absurd hp List.not_mem_nil⟩
  · exact freshIds_round twoOrders (by decide)
  · exact fun _ => ⟨⟨eleven.instant, show eleven.asUtcInstant = _ by decide⟩, rfl, rfl⟩

end Sample

theorem Deployment.reports_in_store_seeded :
    Sample.deployment.handled.map Handled.failed = [true, false] ∧
      Sample.deployment.process.world.db.attempts.map ProcessingAttempt.entry =
        (Sample.deployment.handled.filter fun h => !h.skipped).map Handled.entry :=
  ⟨by decide +kernel,
    (reports_in_store Sample.bootstrap Sample.documented_runtime Sample.reachable_deployment).1⟩

end RulesEnrichment
