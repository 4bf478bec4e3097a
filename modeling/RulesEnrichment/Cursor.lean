import RulesEnrichment.Lib.Machine
import RulesEnrichment.Model.Facade
import RulesEnrichment.ProcessStep

/-! # The polling cursor

    The worker polls with `updated_since` set to the cursor that the last
    cycle returned, so an order older than the cursor is never seen again.
    Two kinds of orders must stay ahead of it: those that failed, and those
    that did not fit into the batch.

    The cursor a cycle returns is the greatest of the cursor it started
    from and the timestamps of its batch (`cursor_cases`), and on the first
    poll the cycle's own start time stands in for the missing cursor. Both
    results below say exactly which orders are left behind. -/

namespace RulesEnrichment

open StepMachine

namespace PollingWorker

/-- The worker, cycle after cycle; `promise` is what the external API
    promises of each. -/
def machine (f : EnrichmentFacade) {ι : Type} (cycleOf : ι → Cycle)
    (promise : Daemon → ι → Prop) : Machine Daemon ι where
  init d := d.updatedSince = none ∧ d.cache = RulesCache.empty
  guard := promise
  step d i := (runOnce f (cycleOf i) d).2

section cycle

variable (f : EnrichmentFacade) (d : Daemon) (c : Cycle)

/-- What the worker gets from polling. -/
def batch : Except PyErr (List ExternalOrder) := c.poll d.updatedSince f.pollBatchSize

/-- The variables of `run_once` when the cycle ends. -/
def cycleEnd : LoopState := (f.runOnce c d.updatedSince d.world d.cache).2

/-- Neither the poll nor a query for rules raises. -/
def Completes : Prop := (f.runOnce c d.updatedSince d.world d.cache).1.isOk = true

/-- The cursor after a cycle: the old one if the cycle raised, else the
    greatest of the starting cursor and the timestamps of the batch. -/
theorem cursor_cases :
    (¬ Completes f d c ∧ (runOnce f c d).2.updatedSince = d.updatedSince) ∨
    (Completes f d c ∧ ∃ orders cursor, batch f d c = .ok orders ∧
      (runOnce f c d).2.updatedSince = some cursor ∧
      ∀ t, cursor ≤ t ↔ EnrichmentFacade.startCursor c d.updatedSince ≤ t ∧
        ∀ o ∈ orders, o.updatedAt ≤ t) := by
  unfold Completes runOnce batch EnrichmentFacade.runOnce
  cases hpoll : c.poll d.updatedSince f.pollBatchSize with
  | error e =>
    left
    exact ⟨by simp [Except.isOk, Except.toBool], rfl⟩
  | ok orders =>
    -- the loop ends early exactly if the rules of an order cannot be loaded
    simp only
    cases hloop : f.handleOrders c.env 0 orders ⟨d.world.issue c.runId, d.cache, 0, 0,
        EnrichmentFacade.startCursor c d.updatedSince, []⟩ with
    | mk err s =>
      cases err with
      | some e =>
        left
        exact ⟨by simp [Except.isOk, Except.toBool], rfl⟩
      | none =>
        right
        refine ⟨rfl, orders, s.maxUpdatedAt, rfl, rfl, ?_⟩
        intro t
        exact EnrichmentFacade.maxUpdatedAt_handleOrders hloop t

/-- Only orders of the batch are handled. -/
theorem order_mem_batch {h : Handled} (hh : h ∈ (cycleEnd f d c).handled) :
    ∃ orders, batch f d c = .ok orders ∧ h.call.order ∈ orders := by
  -- stated for all handled orders, as an invariant of the loop
  have hall : ∀ h ∈ (cycleEnd f d c).handled, ∃ orders, batch f d c = .ok orders ∧
      h.call.order ∈ orders := by
    unfold cycleEnd
    refine EnrichmentFacade.runOnce_induction (I := fun s => ∀ h ∈ s.handled, ∃ orders,
      batch f d c = .ok orders ∧ h.call.order ∈ orders) (by simp) ?_
    intro orders hpoll e order ho s s' hs hstep h hh
    obtain ⟨rules, _, _, _, hhandled⟩ := EnrichmentFacade.handleOrder_ok hstep
    rw [hhandled, List.mem_append, List.mem_singleton] at hh
    rcases hh with hh | rfl
    · exact hs h hh
    · exact ⟨orders, hpoll, ho⟩
  exact hall h hh

/-- The starting cursor is not later than `t`: neither the cursor polled
    with is, nor on a first poll the start of the cycle. -/
theorem startCursor_le {t : DateTime} (hsince : ∀ since, d.updatedSince = some since → since ≤ t)
    (hfirst : d.updatedSince = none → c.started ≤ t) :
    EnrichmentFacade.startCursor c d.updatedSince ≤ t := by
  cases hs : d.updatedSince with
  | none => exact hfirst hs
  | some since =>
    show since.asUtc ≤ t
    rw [DateTime.asUtc_le_iff]
    exact hsince since hs

end cycle

/-! ## Orders that failed -/

/-- The filter a poll asks for. -/
def notOlder (since : Option DateTime) (o : ExternalOrder) : Bool :=
  match since with
  | none => true
  | some t => t ≤ o.updatedAt

/-- The external API's promise: no order older than `updated_since`. -/
def HonoursUpdatedSince (_ : Daemon) (c : Cycle) : Prop :=
  ∀ since limit orders, c.poll (some since) limit = .ok orders →
    ∀ o ∈ orders, since ≤ o.updatedAt

/-- Processing raised for `o` during the cycle, and `o` is not in the dead
    letter when the cycle ends. -/
def FailedIn (f : EnrichmentFacade) (d : Daemon) (c : Cycle) (o : ExternalOrder) : Prop :=
  (∃ h ∈ (cycleEnd f d c).handled, h.failed = true ∧ h.call.order = o) ∧
    ∀ i ∈ (cycleEnd f d c).world.db.deadLetter, i.orderId ≠ o.orderId

/-- The cursor the worker stores is not later than an order that failed. -/
def KeepsFailures (f : EnrichmentFacade) (d : Daemon) (c : Cycle) : Prop :=
  ∀ cursor, (runOnce f c d).2.updatedSince = some cursor →
    ∀ o, FailedIn f d c o → cursor ≤ o.updatedAt

/-- No order that failed is older than another order of its batch, nor, on
    a poll without a cursor, older than the cycle. -/
def FailuresComeLast (f : EnrichmentFacade) (d : Daemon) (c : Cycle) : Prop :=
  Completes f d c → ∀ orders, batch f d c = .ok orders → ∀ o, FailedIn f d c o →
    (∀ o' ∈ orders, o'.updatedAt ≤ o.updatedAt) ∧
      (d.updatedSince = none → c.started ≤ o.updatedAt)

/-- Within one cycle. -/
theorem keepsFailures_cycle {f : EnrichmentFacade} {d : Daemon} {c : Cycle}
    (hapi : HonoursUpdatedSince d c) : KeepsFailures f d c ↔ FailuresComeLast f d c := by
  -- an order that failed was in the batch, so it is not older than the cursor polled with
  have hsince : ∀ o, FailedIn f d c o → ∀ since, d.updatedSince = some since →
      since ≤ o.updatedAt := by
    intro o ho since hs
    obtain ⟨h, hh, _, rfl⟩ := ho.1
    obtain ⟨orders, hb, hmem⟩ := order_mem_batch f d c hh
    unfold batch at hb
    rw [hs] at hb
    exact hapi since f.pollBatchSize orders hb _ hmem
  rcases cursor_cases f d c with ⟨hraise, hcursor⟩ | ⟨hdone, orders, cursor, hb, hcursor, hle⟩
  · -- the cycle raised and the cursor stays where it was
    have hlast : FailuresComeLast f d c := fun hc => absurd hc hraise
    refine ⟨fun _ => hlast, ?_⟩
    intro _ since hs o ho
    rw [hcursor] at hs
    exact hsince o ho since hs
  · constructor
    · intro hkeep _ orders' hb' o ho
      rw [hb] at hb'
      cases hb'
      -- the cursor bounds the whole batch, and the start of a first poll
      obtain ⟨hstart, hall⟩ := (hle o.updatedAt).mp (hkeep cursor hcursor o ho)
      refine ⟨hall, ?_⟩
      intro hnone
      rw [hnone] at hstart
      exact hstart
    · intro hlast cursor' hcursor' o ho
      rw [hcursor] at hcursor'
      cases hcursor'
      obtain ⟨horders, hfirst⟩ := hlast hdone orders hb o ho
      exact (hle o.updatedAt).mpr ⟨startCursor_le d c (hsince o ho) hfirst, horders⟩

/-- **Failed orders.** Along every run the cursor stays behind the orders
    that failed exactly when these come last in every cycle. -/
theorem keepsFailures_iff (f : EnrichmentFacade) {d : Daemon} {cs : List Cycle}
    (hl : (machine f id HonoursUpdatedSince).Legal d cs) :
    (∀ p ∈ (machine f id HonoursUpdatedSince).visits d cs, KeepsFailures f p.1 p.2) ↔
      ∀ p ∈ (machine f id HonoursUpdatedSince).visits d cs, FailuresComeLast f p.1 p.2 := by
  apply Machine.forall_visits_iff _ _ hl
  intro d c hapi
  exact keepsFailures_cycle hapi

/-! ### A failure behind the cursor

    A batch of two orders, oldest first. The API refuses the enrichment of
    the older one and accepts the other: the older order stays behind. -/

def failingCycle : Cycle where
  started := Sample.nine
  runId := "run-1"
  poll since _ := .ok
    ([Sample.order "ORD-1" Sample.nine, Sample.order "ORD-2" Sample.ten].filter (notOlder since))
  env i := {
    now := Sample.eleven
    correlationId := Sample.correlationId
    submit := if i = 0 then Sample.refuse else Sample.accept }

def sampleFacade : EnrichmentFacade := ⟨Sample.useCase 3, 100, 300⟩

def sampleDaemon : Daemon := Daemon.start (World.fresh Sample.rules)

theorem failingCycle_honours (d : Daemon) : HonoursUpdatedSince d failingCycle := by
  intro since limit orders h o ho
  cases h
  simpa [notOlder] using (List.mem_filter.mp ho).2

theorem failingCycle_legal :
    (machine sampleFacade id HonoursUpdatedSince).Legal sampleDaemon [failingCycle] := by
  intro p hp
  rw [List.mem_singleton.mp hp]
  exact failingCycle_honours sampleDaemon

theorem keepsFailures_iff_failingCycle :
    (∀ p ∈ (machine sampleFacade id HonoursUpdatedSince).visits sampleDaemon [failingCycle],
      KeepsFailures sampleFacade p.1 p.2) ↔
    ∀ p ∈ (machine sampleFacade id HonoursUpdatedSince).visits sampleDaemon [failingCycle],
      FailuresComeLast sampleFacade p.1 p.2 :=
  keepsFailures_iff sampleFacade failingCycle_legal

theorem failed_order_behind_cursor :
    (machine sampleFacade id HonoursUpdatedSince).init sampleDaemon ∧
    (machine sampleFacade id HonoursUpdatedSince).Legal sampleDaemon [failingCycle] ∧
    ¬ KeepsFailures sampleFacade sampleDaemon failingCycle := by
  refine ⟨⟨rfl, rfl⟩, failingCycle_legal, ?_⟩
  intro h
  have hfailed : FailedIn sampleFacade sampleDaemon failingCycle
      (Sample.order "ORD-1" Sample.nine) := by
    have hhandled : (cycleEnd sampleFacade sampleDaemon failingCycle).handled.head?.map
        (fun h => (h.failed, h.call.order)) =
          some (true, Sample.order "ORD-1" Sample.nine) := by rfl
    have hdead : (cycleEnd sampleFacade sampleDaemon failingCycle).world.db.deadLetter = [] := by rfl
    obtain ⟨hd, hhead, heq⟩ := Option.map_eq_some_iff.mp hhandled
    obtain ⟨hfail, horder⟩ := Prod.mk.inj heq
    exact ⟨⟨hd, List.mem_of_mem_head? hhead, hfail, horder⟩, by simp [hdead]⟩
  -- the other order of the batch has moved the cursor to ten
  have hle := h Sample.ten rfl _ hfailed
  exact absurd hle (by decide)

/-! ## Orders that did not fit into the batch -/

/-- A cycle, and all orders the external API holds when it is polled. -/
structure Poll where
  cycle : Cycle
  held : List ExternalOrder

/-- The orders a poll may return: ready, and not older than the cursor. -/
def eligible (held : List ExternalOrder) (since : Option DateTime) : List ExternalOrder :=
  held.filter fun o => o.status = "READY_FOR_ENRICHMENT" && notOlder since o

/-- The external API's promise: the `limit` oldest eligible orders. -/
def AnswersOldest (_ : Daemon) (p : Poll) : Prop :=
  ∀ since limit orders, p.cycle.poll since limit = .ok orders →
    ∃ rest, (orders ++ rest).Perm (eligible p.held since) ∧
      orders.length = min limit (eligible p.held since).length ∧
      ∀ o ∈ orders, ∀ r ∈ rest, o.updatedAt ≤ r.updatedAt

/-- `o` was eligible for the poll of the cycle and is not in the batch. -/
def LeftOut (f : EnrichmentFacade) (d : Daemon) (p : Poll) (o : ExternalOrder) : Prop :=
  ∃ orders, batch f d p.cycle = .ok orders ∧ o ∈ eligible p.held d.updatedSince ∧ o ∉ orders

/-- The cursor the worker stores is not later than an order left out. -/
def KeepsBacklog (f : EnrichmentFacade) (d : Daemon) (p : Poll) : Prop :=
  ∀ cursor, (runOnce f p.cycle d).2.updatedSince = some cursor →
    ∀ o, LeftOut f d p o → cursor ≤ o.updatedAt

/-- On a poll without a cursor, no order left out is older than the cycle. -/
def BacklogIsRecent (f : EnrichmentFacade) (d : Daemon) (p : Poll) : Prop :=
  d.updatedSince = none → Completes f d p.cycle →
    ∀ o, LeftOut f d p o → p.cycle.started ≤ o.updatedAt

/-- Within one cycle. -/
theorem keepsBacklog_cycle {f : EnrichmentFacade} {d : Daemon} {p : Poll}
    (hapi : AnswersOldest d p) : KeepsBacklog f d p ↔ BacklogIsRecent f d p := by
  -- what is left out is not older than the cursor polled with
  have hsince : ∀ o, LeftOut f d p o → ∀ since, d.updatedSince = some since →
      since ≤ o.updatedAt := by
    intro o ho since hs
    obtain ⟨_, _, helig, _⟩ := ho
    rw [hs] at helig
    have hcond := (List.mem_filter.mp helig).2
    simp only [notOlder, Bool.and_eq_true, decide_eq_true_eq] at hcond
    exact hcond.2
  rcases cursor_cases f d p.cycle with
    ⟨hraise, hcursor⟩ | ⟨hdone, orders, cursor, hb, hcursor, hle⟩
  · -- the cycle raised and the cursor stays where it was
    have hrecent : BacklogIsRecent f d p := fun _ hc => absurd hc hraise
    refine ⟨fun _ => hrecent, ?_⟩
    intro _ since hs o ho
    rw [hcursor] at hs
    exact hsince o ho since hs
  · constructor
    · intro hkeep hnone _ o ho
      have hstart := ((hle o.updatedAt).mp (hkeep cursor hcursor o ho)).1
      rw [hnone] at hstart
      exact hstart
    · intro hrecent cursor' hcursor' o ho
      rw [hcursor] at hcursor'
      cases hcursor'
      have hstart := startCursor_le d p.cycle (hsince o ho) fun hnone => hrecent hnone hdone o ho
      refine (hle o.updatedAt).mpr ⟨hstart, ?_⟩
      -- the batch holds the oldest of the eligible orders
      obtain ⟨orders', hb', helig, hnotin⟩ := ho
      rw [hb] at hb'
      cases hb'
      obtain ⟨rest, hperm, _, holdest⟩ := hapi d.updatedSince f.pollBatchSize orders hb
      have hrest : o ∈ rest := by
        rcases List.mem_append.mp (hperm.mem_iff.mpr helig) with hin | hin
        · exact absurd hin hnotin
        · exact hin
      intro o' ho'
      exact holdest o' ho' o hrest

/-- **Orders left out.** Along every run the cursor stays behind the orders
    left out exactly when the polls without a cursor leave out only recent
    ones. -/
theorem keepsBacklog_iff (f : EnrichmentFacade) {d : Daemon} {ps : List Poll}
    (hl : (machine f Poll.cycle AnswersOldest).Legal d ps) :
    (∀ p ∈ (machine f Poll.cycle AnswersOldest).visits d ps, KeepsBacklog f p.1 p.2) ↔
      ∀ p ∈ (machine f Poll.cycle AnswersOldest).visits d ps, BacklogIsRecent f p.1 p.2 := by
  apply Machine.forall_visits_iff _ _ hl
  intro d p hapi
  exact keepsBacklog_cycle hapi

/-! ### A backlog behind the cursor

    Two ready orders and a batch of one: the first poll takes the older
    one, and the cycle's start time becomes the cursor. -/

def backlogPoll : Poll where
  held := [Sample.order "ORD-1" Sample.nine, Sample.order "ORD-2" Sample.ten]
  cycle := {
    started := Sample.eleven
    runId := "run-1"
    poll := fun since limit => .ok ((eligible
      [Sample.order "ORD-1" Sample.nine, Sample.order "ORD-2" Sample.ten] since).take limit)
    env := fun _ => {
      now := Sample.eleven
      correlationId := Sample.correlationId
      submit := Sample.accept } }

def smallBatchFacade : EnrichmentFacade := ⟨Sample.useCase 3, 1, 300⟩

theorem backlogPoll_answersOldest (d : Daemon) : AnswersOldest d backlogPoll := by
  intro since limit orders h
  cases h
  refine ⟨(eligible backlogPoll.held since).drop limit, ?_, by simp [backlogPoll], ?_⟩
  · show ((eligible backlogPoll.held since).take limit ++
      (eligible backlogPoll.held since).drop limit).Perm (eligible backlogPoll.held since)
    rw [List.take_append_drop]
  · -- the API holds its orders oldest first
    have hsorted : (eligible backlogPoll.held since).Pairwise
        fun a b => a.updatedAt ≤ b.updatedAt :=
      List.Pairwise.filter _ (by decide)
    rw [← List.take_append_drop limit (eligible backlogPoll.held since)] at hsorted
    exact (List.pairwise_append.mp hsorted).2.2

theorem backlogPoll_legal :
    (machine smallBatchFacade Poll.cycle AnswersOldest).Legal sampleDaemon [backlogPoll] := by
  intro p hp
  rw [List.mem_singleton.mp hp]
  exact backlogPoll_answersOldest sampleDaemon

theorem keepsBacklog_iff_backlogPoll :
    (∀ p ∈ (machine smallBatchFacade Poll.cycle AnswersOldest).visits sampleDaemon [backlogPoll],
      KeepsBacklog smallBatchFacade p.1 p.2) ↔
    ∀ p ∈ (machine smallBatchFacade Poll.cycle AnswersOldest).visits sampleDaemon [backlogPoll],
      BacklogIsRecent smallBatchFacade p.1 p.2 :=
  keepsBacklog_iff smallBatchFacade backlogPoll_legal

theorem left_out_order_behind_cursor :
    (machine smallBatchFacade Poll.cycle AnswersOldest).init sampleDaemon ∧
    (machine smallBatchFacade Poll.cycle AnswersOldest).Legal sampleDaemon [backlogPoll] ∧
    ¬ KeepsBacklog smallBatchFacade sampleDaemon backlogPoll := by
  refine ⟨⟨rfl, rfl⟩, backlogPoll_legal, ?_⟩
  intro h
  have hout : LeftOut smallBatchFacade sampleDaemon backlogPoll
      (Sample.order "ORD-2" Sample.ten) :=
    ⟨[Sample.order "ORD-1" Sample.nine], rfl, by decide, by decide⟩
  -- the cursor is the start of the cycle, an hour after the order left out
  have hle := h Sample.eleven rfl _ hout
  exact absurd hle (by decide)

end PollingWorker

end RulesEnrichment
