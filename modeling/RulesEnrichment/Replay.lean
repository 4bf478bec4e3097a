import RulesEnrichment.Batch
import RulesEnrichment.Idempotency
import RulesEnrichment.Scope

/-! # Polling the same orders again

    The external API answers a poll with the orders that are not older than
    the cursor, so the youngest orders of a batch come again with the next
    poll, and all of a batch does if the cycle over it broke off or the
    process was started anew. What keeps this from enriching an order twice
    is the stored hash: as long as the rules stay the same, an order that
    was processed is `Settled`, and a settled order is skipped.

    * `resubmits_only_failed`: of orders that come again, only those that
      were never processed are submitted, and if all of them were, then the
      cycle stores and sends nothing. -/

namespace RulesEnrichment

open UnitOfWork KeyedTable RefreshRules

/-- **Loop rule** with what is known of each order and its environment: what
    handling such an order keeps holds where the loop ends. -/
theorem EnrichmentFacade.handleOrders_rule {f : EnrichmentFacade} {I : LoopState → Prop}
    {P : OrderEnv → ExternalOrder → Prop} {env : Nat → OrderEnv}
    (hstep : ∀ e order s s', P e order → I s → f.handleOrder e order s = .ok s' → I s')
    {orders : List ExternalOrder} {i : Nat}
    (hP : ∀ j order, orders[j]? = some order → P (env (i + j)) order) {s : LoopState} (hs : I s) :
    I (f.handleOrders env i orders s).2 := by
  induction orders generalizing i s with
  | nil => exact hs
  | cons order orders ih =>
    unfold EnrichmentFacade.handleOrders
    cases hh : f.handleOrder (env i) order s with
    | error e => exact hs
    | ok s' =>
      refine ih ?_ (hstep (env i) order s s' (hP 0 order rfl) hs hh)
      intro j order' hj
      rw [Nat.add_right_comm, Nat.add_assoc]
      exact hP (j + 1) order' hj

/-- The counts of the loop follow what was handled. -/
theorem EnrichmentFacade.handleOrder_counts {f : EnrichmentFacade} {e : OrderEnv}
    {order : ExternalOrder} {s s' : LoopState} (h : f.handleOrder e order s = .ok s') {x : Handled}
    (hx : s'.handled = s.handled ++ [x]) :
    s'.success = (if x.failed then s.success else s.success + 1) ∧
      s'.failed = if x.failed then s.failed + 1 else s.failed := by
  unfold handleOrder at h
  rcases hrefresh : refreshRules (f.refreshCall e order) s.world.db s.cache with ⟨err | rules, cache⟩
  · rw [hrefresh] at h
    cases h
  · rw [hrefresh] at h
    simp only at h
    obtain rfl := Except.ok.inj h
    rw [← (List.cons.inj (List.append_cancel_left hx)).1]
    generalize hout : (ProcessCall.execute f.process (e.processCall order rules) s.world).1 = outcome
    show (if outcome.isOk then s.success + 1 else s.success) =
        (if !outcome.isOk then s.success else s.success + 1) ∧
      (if outcome.isOk then s.failed else s.failed + 1) =
        if !outcome.isOk then s.failed + 1 else s.failed
    cases outcome.isOk
    · exact ⟨rfl, rfl⟩
    · exact ⟨rfl, rfl⟩

/-! ## Settled orders -/

/-- The stored hash of the order is that of what the rules of `db` decide
    for it. -/
def Settled (rt : Runtime) (db : Database) (scan : ScanOrder EnrichmentRule) (t : DateTime)
    (w : World) (order : ExternalOrder) : Prop :=
  ∃ d hash p, evaluate rt order (listAt db scan t (scopeOf order)) t = .ok d ∧
    computeHash rt order d.enrichedFields = .ok hash ∧
    w.db.processedOrders.find? order.orderId = some p ∧ p.enrichmentHash = hash

/-- What is cached, the rules of `db` have as well. -/
def CachedFrom (sp : TimeSpan) (db : Database) (scan : ScanOrder EnrichmentRule)
    (cache : RulesCache) : Prop :=
  ∀ key e, cache key = some e → ∃ t, sp.Holds t ∧ e.data = listAt db scan t key

theorem CachedFrom.empty {sp : TimeSpan} {db : Database} {scan : ScanOrder EnrichmentRule} :
    CachedFrom sp db scan .empty := by
  intro key e he
  cases he

/-- The order is handled within the time, the rows of the rules coming in
    one order. -/
structure HandledWithin (sp : TimeSpan) (scan : ScanOrder EnrichmentRule) (e : OrderEnv) : Prop where
  clock : sp.Holds e.now
  scan : e.scan = scan

section

variable {f : EnrichmentFacade} {sp : TimeSpan} {db : Database} {scan : ScanOrder EnrichmentRule}
  {t : DateTime} {e : OrderEnv} {order other : ExternalOrder} {s s' : LoopState}

/-- The loop as far as the rules go: the table is that of `db`, and so is
    what is cached. -/
structure RulesOf (sp : TimeSpan) (db : Database) (scan : ScanOrder EnrichmentRule)
    (s : LoopState) : Prop where
  table : s.world.db.rules = db.rules
  cache : CachedFrom sp db scan s.cache

/-- The call for an order gets the rules of `db`, whenever it is made. -/
theorem RulesOf.handleOrder (h : RulesOf sp db scan s) (hdb : sp.Steady db) (ht : sp.Holds t)
    (he : HandledWithin sp scan e) (hstep : f.handleOrder e order s = .ok s') :
    RulesOf sp db scan s' ∧ ∃ call : ProcessCall, call.order = order ∧
      call.rules = listAt db scan t (scopeOf order) ∧ sp.Holds call.now ∧
      s'.world = (call.execute f.process s.world).2 ∧
      s'.handled = s.handled ++ [⟨call, (call.execute f.process s.world).1⟩] := by
  obtain ⟨rules, hrefresh, hworld, _, hhandled⟩ := EnrichmentFacade.handleOrder_ok hstep
  have hload : (f.refreshCall e order).load s.world.db = listAt db scan e.now (scopeOf order) := by
    show listAt s.world.db e.scan e.now (scopeOf order) = _
    rw [he.scan]
    exact listAt_congr h.table scan e.now (scopeOf order)
  -- cached or not, they are the rules of `db`
  obtain ⟨hcache, entry, ⟨t', ht', hdata⟩, rfl, _⟩ := refreshRules_rule
    (P := fun key e => ∃ t, sp.Holds t ∧ e.data = listAt db scan t key) hrefresh h.cache
    ⟨e.now, he.clock, hload⟩
  have hrules : entry.data = listAt db scan t (scopeOf order) := by
    rw [hdata, TimeSpan.listAt_eq hdb ht ht']
    rfl
  refine ⟨⟨?_, hcache⟩, e.processCall order entry.data, rfl, hrules, he.clock, hworld, hhandled⟩
  rw [hworld]
  exact ((e.processCall order entry.data).rules_execute f.process s.world).trans h.table

/-- A call that returned has settled its order. -/
theorem settled_of_ok {c : ProcessCall} {uc : ProcessOrderUseCase} {w : World} (hdb : sp.Steady db)
    (ht : sp.Holds t) (hrules : c.rules = listAt db scan t (scopeOf c.order)) (hnow : sp.Holds c.now)
    (hok : (c.execute uc w).1.isOk = true) :
    Settled uc.runtime db scan t (c.execute uc w).2 c.order := by
  have hstart : ∀ {d}, evaluate uc.runtime c.order c.rules c.now = .ok d →
      ∃ d', evaluate uc.runtime c.order (listAt db scan t (scopeOf c.order)) t = .ok d' ∧
        d'.enrichedFields = d.enrichedFields := by
    intro d hd
    have hin : ∀ r ∈ listAt db scan t (scopeOf c.order), r ∈ db.rules.rows :=
      fun r hr => (EnrichmentRuleRepository.mem_listActiveRules.mp hr).1
    rw [hrules, TimeSpan.evaluate_eq hdb ht hnow hin] at hd
    rcases heval : evaluate uc.runtime c.order (listAt db scan t (scopeOf c.order)) t with err | d'
    · rw [heval] at hd
      cases hd
    · rw [heval] at hd
      exact ⟨d', rfl, by rw [← Except.ok.inj hd]⟩
  -- the hash is stored already, or it is that of the success that was recorded
  have hsettle : ∀ {d hash}, c.Decides uc d hash → ∀ {w' : World} {p : ProcessedOrder},
      w'.db.processedOrders.find? c.order.orderId = some p → p.enrichmentHash = hash →
      Settled uc.runtime db scan t w' c.order := by
    intro d hash hdec w' p hp hhash
    obtain ⟨d', heval, hfields⟩ := hstart hdec.evaluated
    exact ⟨d', hash, p, heval, by rw [hfields]; exact hdec.hashed, hp, hhash⟩
  -- a call that returns has found a duplicate or recorded a success
  have hways : ∃ d hash, c.Decides uc d hash ∧
      (c.isDuplicate w hash = true ∨ Processing.RecordsSuccess uc c w) := by
    have hstep := c.execute_step uc w
    unfold Processing.RecordsSuccess
    generalize (c.execute uc w).1 = res, (c.execute uc w).2 = w' at hstep hok ⊢
    cases hstep with
    | evaluationError e hraise => cases hok
    | duplicate d hash hdec hdup => exact ⟨d, hash, hdec, Or.inl hdup⟩
    | noMatch d hash db hdec hdup hmatch hrec hfault => exact ⟨d, hash, hdec, Or.inr rfl⟩
    | noMatchRefused d hash e hdec hdup hmatch hrefused => cases hok
    | submits d hash hsub hstep =>
      cases hstep with
      | succeeded db hanswer hrec hfault => exact ⟨d, hash, hsub.toDecides, Or.inr rfl⟩
      | failureRefused accepted exc e htry hrefused => cases hok
      | failed accepted exc db htry hrec hfault hlimit => cases hok
      | deadLetterRefused accepted exc e db htry hrec hfault hlimit hrefused => cases hok
      | deadLettered accepted exc db db' htry hrec hfault hlimit hdead hjson => cases hok
  obtain ⟨d, hash, hdec, hdup | hsucc⟩ := hways
  · obtain ⟨p, hp, hhash⟩ := ProcessCall.isDuplicate_iff.mp hdup
    rw [Processing.execute_of_stored_hash hdec hp hhash]
    exact hsettle hdec hp hhash
  · obtain ⟨p, hp, hhash⟩ := Processing.find?_processed_of_success hdec hsucc
    exact hsettle hdec hp hhash

/-- A call for a settled order only takes an id. -/
theorem Settled.execute {c : ProcessCall} {uc : ProcessOrderUseCase} {w : World}
    (h : Settled uc.runtime db scan t w c.order) (hdb : sp.Steady db) (ht : sp.Holds t)
    (hrules : c.rules = listAt db scan t (scopeOf c.order)) (hnow : sp.Holds c.now) :
    c.execute uc w = (.ok (true, c.correlationId, true), w.issue c.correlationId) := by
  obtain ⟨d, hash, p, heval, hhash, hp, hstored⟩ := h
  have hin : ∀ r ∈ listAt db scan t (scopeOf c.order), r ∈ db.rules.rows :=
    fun r hr => (EnrichmentRuleRepository.mem_listActiveRules.mp hr).1
  refine Processing.execute_of_stored_hash (d := { d with decisionTimestamp := c.now }) ⟨?_, hhash⟩
    hp hstored
  rw [hrules, TimeSpan.evaluate_eq hdb ht hnow hin, heval]
  rfl

/-- An order stays settled when another one is processed. -/
theorem Settled.frame {c : ProcessCall} {uc : ProcessOrderUseCase} {w : World}
    (h : Settled uc.runtime db scan t w other) (hne : c.order.orderId ≠ other.orderId) :
    Settled uc.runtime db scan t (c.execute uc w).2 other := by
  obtain ⟨d, hash, p, heval, hhash, hp, hstored⟩ := h
  refine ⟨d, hash, p, heval, hhash, ?_, hstored⟩
  rw [Processing.find?_processed_process fun heq => absurd heq hne]
  exact hp

end

/-! ## The first time and the next -/

section cycles

variable {f : EnrichmentFacade} {sp : TimeSpan} {db : Database} {scan : ScanOrder EnrichmentRule}
  {t : DateTime} {orders : List ExternalOrder}

/-- An order of the batch, and the environment in which it is handled. -/
structure InBatch (sp : TimeSpan) (scan : ScanOrder EnrichmentRule) (orders : List ExternalOrder)
    (e : OrderEnv) (order : ExternalOrder) : Prop extends HandledWithin sp scan e where
  mem : order ∈ orders

/-- The loop the first time: the orders that were processed are settled. -/
structure Processed (f : EnrichmentFacade) (sp : TimeSpan) (db : Database)
    (scan : ScanOrder EnrichmentRule) (t : DateTime) (orders : List ExternalOrder)
    (s : LoopState) : Prop extends RulesOf sp db scan s where
  fromBatch : ∀ h ∈ s.handled, h.call.order ∈ orders
  settled : ∀ h ∈ s.handled, h.failed = false →
    Settled f.process.runtime db scan t s.world h.call.order

/-- Orders of the batch with one id are one order. -/
def IdsIdentify (orders : List ExternalOrder) : Prop :=
  ∀ o ∈ orders, ∀ o' ∈ orders, o.orderId = o'.orderId → o = o'

theorem Processed.handleOrder {s s' : LoopState} (h : Processed f sp db scan t orders s)
    (hdb : sp.Steady db) (ht : sp.Holds t) (hids : IdsIdentify orders) {e : OrderEnv}
    {order : ExternalOrder} (he : InBatch sp scan orders e order)
    (hstep : f.handleOrder e order s = .ok s') : Processed f sp db scan t orders s' := by
  obtain ⟨hrules, call, rfl, hown, hnow, hworld, hhandled⟩ :=
    h.toRulesOf.handleOrder hdb ht he.toHandledWithin hstep
  refine ⟨hrules, ?_, ?_⟩
  · intro x hx
    rw [hhandled, List.mem_append, List.mem_singleton] at hx
    rcases hx with hx | rfl
    · exact h.fromBatch x hx
    · exact he.mem
  · intro x hx hok
    rw [hhandled, List.mem_append, List.mem_singleton] at hx
    rw [hworld]
    rcases hx with hx | rfl
    · have hsettled := h.settled x hx hok
      -- another order, or the same one once more
      by_cases heq : call.order.orderId = x.call.order.orderId
      · have hsame : call.order = x.call.order := hids _ he.mem _ (h.fromBatch x hx) heq
        rw [← hsame] at hsettled ⊢
        rw [hsettled.execute hdb ht hown hnow]
        exact hsettled
      · exact hsettled.frame heq
    · refine settled_of_ok hdb ht hown hnow ?_
      simpa [Handled.failed] using hok

/-- The loop the next time, from the world `w` on: what was settled stays,
    and what is submitted was not. -/
structure Replayed (f : EnrichmentFacade) (sp : TimeSpan) (db : Database)
    (scan : ScanOrder EnrichmentRule) (t : DateTime) (orders : List ExternalOrder)
    (good : ExternalOrder → Prop) (w : World) (s : LoopState) : Prop extends
    RulesOf sp db scan s where
  settled : ∀ o ∈ orders, good o → Settled f.process.runtime db scan t s.world o
  submitted : ∃ ss, s.world.submissions = w.submissions ++ ss ∧
    ∀ x ∈ ss, ∃ o ∈ orders, o.orderId = x.orderId ∧ ¬ good o
  unchanged : (∀ o ∈ orders, good o) →
    s.world.db = w.db ∧ s.failed = 0 ∧ s.success = s.handled.length

theorem Replayed.handleOrder {good : ExternalOrder → Prop} {w : World} {s s' : LoopState}
    (h : Replayed f sp db scan t orders good w s) (hdb : sp.Steady db) (ht : sp.Holds t)
    (hids : IdsIdentify orders) {e : OrderEnv} {order : ExternalOrder}
    (he : InBatch sp scan orders e order) (hstep : f.handleOrder e order s = .ok s') :
    Replayed f sp db scan t orders good w s' := by
  obtain ⟨hrules, call, rfl, hown, hnow, hworld, hhandled⟩ :=
    h.toRulesOf.handleOrder hdb ht he.toHandledWithin hstep
  have hskip : good call.order → call.execute f.process s.world =
      (.ok (true, call.correlationId, true), s.world.issue call.correlationId) :=
    fun hgood => (h.settled _ he.mem hgood).execute hdb ht hown hnow
  obtain ⟨old, hold, hnot⟩ := h.submitted
  refine ⟨hrules, ?_, ?_, ?_⟩
  · intro o ho hgood
    have hsettled := h.settled o ho hgood
    rw [hworld]
    by_cases heq : call.order.orderId = o.orderId
    · have hsame : call.order = o := hids _ he.mem _ ho heq
      rw [hskip (hsame ▸ hgood)]
      exact hsettled
    · exact hsettled.frame heq
  · by_cases hgood : good call.order
    · refine ⟨old, ?_, hnot⟩
      rw [hworld, hskip hgood]
      exact hold
    · obtain ⟨new, hnew, _, hsub⟩ := call.execute_submissions f.process s.world
      refine ⟨old ++ new, ?_, ?_⟩
      · rw [hworld, hnew, hold, List.append_assoc]
      · intro x hx
        rcases List.mem_append.mp hx with hx | hx
        · exact hnot x hx
        · exact ⟨_, he.mem, (hsub x hx).orderId.symm, hgood⟩
  · intro hall
    obtain ⟨hsame, hfailed, hsuccess⟩ := h.unchanged hall
    have hres := hskip (hall _ he.mem)
    obtain ⟨hcount, hcount'⟩ := EnrichmentFacade.handleOrder_counts hstep hhandled
    rw [hres] at hworld hhandled hcount hcount'
    have hok : ¬ Handled.failed ⟨call, .ok (true, call.correlationId, true)⟩ = true :=
      Bool.false_ne_true
    rw [if_neg hok] at hcount hcount'
    refine ⟨?_, ?_, ?_⟩
    · rw [hworld]
      exact hsame
    · rw [hcount', hfailed]
    · rw [hcount, hsuccess, hhandled, List.length_append, List.length_singleton]

/-- The environment of a cycle over some orders: their times lie within the
    time in which the rules stay the same. -/
def CycleWithin (sp : TimeSpan) (scan : ScanOrder EnrichmentRule) (n : Nat) (c : Cycle) : Prop :=
  ∀ i < n, HandledWithin sp scan (c.env i)

theorem CycleWithin.inBatch {c : Cycle} (hc : CycleWithin sp scan orders.length c) (j : Nat)
    (order : ExternalOrder) (hj : orders[j]? = some order) :
    InBatch sp scan orders (c.env (0 + j)) order := by
  obtain ⟨hlt, rfl⟩ := List.getElem?_eq_some_iff.mp hj
  rw [Nat.zero_add]
  exact ⟨hc j hlt, List.getElem_mem hlt⟩

/-- What `run_once` makes of the loop over its batch. -/
theorem runOnce_of_poll {c : Cycle} {since : Option DateTime} {w : World} {cache : RulesCache}
    (hpoll : c.poll since f.pollBatchSize = .ok orders) :
    (f.runOnce c since w cache).2 = (f.handleOrders c.env 0 orders
      ⟨w.issue c.runId, cache, 0, 0, EnrichmentFacade.startCursor c since, []⟩).2 := by
  rcases f.runOnce_cases c since w cache with ⟨e, herr, _⟩ | ⟨orders', hok, hend⟩
  · cases hpoll.symm.trans herr
  · obtain rfl := Except.ok.inj (hpoll.symm.trans hok)
    exact hend

/-- A cycle writes no rules. -/
theorem rules_runOnce (c : Cycle) (since : Option DateTime) (w : World) (cache : RulesCache) :
    (f.runOnce c since w cache).2.world.db.rules = w.db.rules := by
  refine EnrichmentFacade.runOnce_induction (I := fun s => s.world.db.rules = w.db.rules) rfl ?_
  intro orders _ e order _ s s' h hstep
  obtain ⟨rules, _, hworld, _, _⟩ := EnrichmentFacade.handleOrder_ok hstep
  rw [hworld, ProcessCall.rules_execute]
  exact h

end cycles

/-- The order was processed in the cycle that ended so. -/
def ProcessedIn (s : LoopState) (o : ExternalOrder) : Prop :=
  ∃ h ∈ s.handled, h.call.order = o ∧ h.failed = false

/-- **Orders that come again.** While no rule of the table starts or ends,
    and the queries meet its rows in one order, let a process start with a
    cycle over a batch in which no two orders share an id, completed or not
    and with whatever errors, and let another cycle follow over orders of
    that batch, in any order and any number of times, on a store that since
    then only other tables were written to, and with the cache of the first
    or an empty one. It submits an order only if the first cycle did not
    process it. If that processed all of them, then the second stores and
    sends nothing, and counts every order it handles as a success. -/
theorem resubmits_only_failed (f : EnrichmentFacade) {orders again : List ExternalOrder}
    (hids : IdsIdentify orders) (hagain : ∀ o ∈ again, o ∈ orders) {w w' : World} {sp : TimeSpan}
    (hsteady : sp.Steady w.db) {scan : ScanOrder EnrichmentRule} {c c' : Cycle}
    (hc : CycleWithin sp scan orders.length c) (hc' : CycleWithin sp scan again.length c')
    {since since' : Option DateTime} (hpoll : c.poll since f.pollBatchSize = .ok orders)
    (hpoll' : c'.poll since' f.pollBatchSize = .ok again) {cache : RulesCache}
    (hprocessed : w'.db.processedOrders = (f.runOnce c since w .empty).2.world.db.processedOrders)
    (hrules : w'.db.rules = w.db.rules)
    (hcache : cache = .empty ∨ cache = (f.runOnce c since w .empty).2.cache) :
    let first := (f.runOnce c since w .empty).2
    let next := (f.runOnce c' since' w' cache).2
    (∃ ss, next.world.submissions = w'.submissions ++ ss ∧
      ∀ x ∈ ss, ∃ o ∈ again, o.orderId = x.orderId ∧ ¬ ProcessedIn first o) ∧
    ((∀ o ∈ again, ProcessedIn first o) → next.world.db = w'.db ∧
      next.world.submissions = w'.submissions ∧ next.failed = 0 ∧
        next.success = next.handled.length) := by
  intro first next
  -- any instant within the time will do; there is one as soon as an order is handled
  have hfirst : ∀ t, sp.Holds t → Processed f sp w.db scan t orders first := by
    intro t ht
    show Processed f sp w.db scan t orders (f.runOnce c since w .empty).2
    rw [runOnce_of_poll hpoll]
    refine EnrichmentFacade.handleOrders_rule (P := InBatch sp scan orders) ?_ hc.inBatch
      ⟨⟨rfl, CachedFrom.empty⟩, fun _ hx => absurd hx List.not_mem_nil,
        fun _ hx => absurd hx List.not_mem_nil⟩
    intro e order s s' he h hstep
    exact h.handleOrder hsteady ht hids he hstep
  have hnext : ∀ t, sp.Holds t → Replayed f sp w.db scan t again (ProcessedIn first) w' next := by
    intro t ht
    show Replayed f sp w.db scan t again (ProcessedIn first) w' (f.runOnce c' since' w' cache).2
    rw [runOnce_of_poll hpoll']
    have hagainIds : IdsIdentify again :=
      fun o ho o' ho' => hids o (hagain o ho) o' (hagain o' ho')
    refine EnrichmentFacade.handleOrders_rule (P := InBatch sp scan again) ?_ hc'.inBatch
      ⟨⟨hrules, ?_⟩, ?_, ⟨[], (List.append_nil _).symm, fun _ hx => absurd hx List.not_mem_nil⟩,
        fun _ => ⟨rfl, rfl, rfl⟩⟩
    · intro e order s s' he h hstep
      exact h.handleOrder hsteady ht hagainIds he hstep
    · rcases hcache with rfl | rfl
      · exact CachedFrom.empty
      · exact (hfirst t ht).cache
    · intro o _ hgood
      obtain ⟨h, hh, rfl, hok⟩ := hgood
      obtain ⟨d, hash, p, heval, hhash, hp, hstored⟩ := (hfirst t ht).settled h hh hok
      refine ⟨d, hash, p, heval, hhash, ?_, hstored⟩
      show w'.db.processedOrders.find? _ = _
      rw [hprocessed]
      exact hp
  cases again with
  | nil =>
    have hnothing : next =
        ⟨w'.issue c'.runId, cache, 0, 0, EnrichmentFacade.startCursor c' since', []⟩ :=
      runOnce_of_poll hpoll'
    rw [hnothing]
    exact ⟨⟨[], (List.append_nil _).symm, fun _ hx => absurd hx List.not_mem_nil⟩,
      fun _ => ⟨rfl, rfl, rfl, rfl⟩⟩
  | cons order rest =>
    have hreplayed := hnext _ (hc' 0 (Nat.succ_pos _)).clock
    refine ⟨hreplayed.submitted, ?_⟩
    intro hall
    obtain ⟨hsame, hfailed, hsuccess⟩ := hreplayed.unchanged hall
    refine ⟨hsame, ?_, hfailed, hsuccess⟩
    -- every submission would be of an order that was not processed
    obtain ⟨ss, hss, hnot⟩ := hreplayed.submitted
    rcases ss with _ | ⟨x, ss⟩
    · rw [hss, List.append_nil]
    · obtain ⟨o, ho, _, hno⟩ := hnot x List.mem_cons_self
      exact absurd (hall o ho) hno

namespace Sample

def twoOrders : List ExternalOrder := [order "ORD-1" nine, order "ORD-2" nine]

/-- A cycle over two orders; the API refuses the enrichment of the first. -/
def refusingCycle : Cycle := { calmCycle twoOrders nine with
  env := fun i => { (calmCycle twoOrders nine).env i with
    submit := if i = 0 then refuse else accept } }

/-- How the cycle ends that starts on `w` with an empty cache. -/
def endOf (w : World) : LoopState := (facade.runOnce refusingCycle none w .empty).2

end Sample

/-- When the batch comes again, the order that was refused is the only one
    that is submitted. -/
theorem resubmits_only_failed_sample :
    (Sample.endOf (Sample.endOf (World.fresh Sample.rules)).world).world.submissions.length = 3 ∧
    ∃ ss, (Sample.endOf (Sample.endOf (World.fresh Sample.rules)).world).world.submissions =
      (Sample.endOf (World.fresh Sample.rules)).world.submissions ++ ss ∧
      ∀ x ∈ ss, ∃ o ∈ Sample.twoOrders, o.orderId = x.orderId ∧
        ¬ ProcessedIn (Sample.endOf (World.fresh Sample.rules)) o := by
  have hcycle : CycleWithin Sample.morning .physical Sample.twoOrders.length Sample.refusingCycle :=
    fun _ _ => ⟨show Sample.morning.Holds Sample.eleven by decide, rfl⟩
  have hsteady : Sample.morning.Steady (World.fresh Sample.rules).db := by
    intro rule hrule t ht
    rw [List.mem_singleton.mp hrule] at ht
    rcases ht with ht | ht <;> cases ht
  have hids : IdsIdentify Sample.twoOrders := by
    intro o ho o' ho' heq
    rcases List.mem_cons.mp ho with rfl | ho <;> rcases List.mem_cons.mp ho' with rfl | ho'
    · rfl
    · rw [List.mem_singleton.mp ho'] at heq
      exact absurd heq (by decide)
    · rw [List.mem_singleton.mp ho] at heq
      exact absurd heq (by decide)
    · rw [List.mem_singleton.mp ho, List.mem_singleton.mp ho']
  have hpoll : Sample.refusingCycle.poll none Sample.facade.pollBatchSize = .ok Sample.twoOrders :=
    rfl
  have hrules : (Sample.endOf (World.fresh Sample.rules)).world.db.rules =
      (World.fresh Sample.rules).db.rules := rules_runOnce _ _ _ _
  refine ⟨by decide +kernel, ?_⟩
  exact (resubmits_only_failed Sample.facade hids (fun _ ho => ho) hsteady hcycle hcycle hpoll hpoll
    (Eq.refl (Sample.endOf (World.fresh Sample.rules)).world.db.processedOrders) hrules
    (Or.inl (Eq.refl RulesCache.empty))).1

end RulesEnrichment
