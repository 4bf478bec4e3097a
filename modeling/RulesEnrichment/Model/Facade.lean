import RulesEnrichment.Lib.Binary64
import RulesEnrichment.Model.UseCases

/-! # The polling daemon

    `RefreshRulesCacheUseCase`, `EnrichmentFacade.run_once` and
    `PollingWorker.run_once`.

    What the environment decides during a cycle (the orders a poll gets,
    the clock, the generated ids, the answers to submissions, the errors
    of the database) is a `Cycle`; the worker is then a function of the
    cycle and of its own state, a `Daemon`. -/

namespace RulesEnrichment

open UnitOfWork

/-! ## `RefreshRulesCacheUseCase` -/

/-- The key of the cache: the three codes. -/
structure ScopeKey where
  clientCode : Option String
  facilityCode : Option String
  zoneCode : Option String
  deriving DecidableEq

/-- The key under which the rules of an order are cached. -/
def scopeOf (order : ExternalOrder) : ScopeKey :=
  ⟨some order.clientCode, some order.facilityCode, order.zoneCode⟩

structure CacheEntry where
  ts : DateTime
  data : List EnrichmentRule

abbrev RulesCache := ScopeKey → Option CacheEntry

def RulesCache.empty : RulesCache := fun _ => none

/-- The arguments of `RefreshRulesCacheUseCase.execute`, and what the
    database does if it is asked. -/
structure RefreshCall where
  now : DateTime
  ttlSeconds : Int
  key : ScopeKey
  scan : ScanOrder EnrichmentRule
  fault : Option PyErr

/-- `timedelta.total_seconds()` of so many microseconds: a division of
    integers, which gives a float. -/
def totalSeconds (micros : Int) : Binary64 := Binary64.ofRatio micros 1000000

/-- `(now - ts).total_seconds() <= ttl_seconds` -/
def CacheEntry.isFresh (e : CacheEntry) (r : RefreshCall) : Bool :=
  (totalSeconds (r.now.instant - e.ts.instant)).leInt r.ttlSeconds

/-- What the query of a refresh returns. -/
def RefreshCall.load (r : RefreshCall) (db : Database) : List EnrichmentRule :=
  EnrichmentRuleRepository.listActiveRules (Session.enter db) r.scan r.now
    r.key.clientCode r.key.facilityCode r.key.zoneCode

/-- `RefreshRulesCacheUseCase.execute` -/
def refreshRules (r : RefreshCall) (db : Database) (cache : RulesCache) :
    Except PyErr (List EnrichmentRule) × RulesCache :=
  match (cache r.key).filter (·.isFresh r) with
  | some e => (.ok e.data, cache)
  | none =>
    -- nothing cached, or too old: the query runs, and only its result replaces the entry
    match r.fault with
    | some e => (.error e, cache)
    | none => (.ok (r.load db), Function.update cache r.key (some ⟨r.now, r.load db⟩))

/-! ## `EnrichmentFacade` -/

structure EnrichmentFacade where
  process : ProcessOrderUseCase
  pollBatchSize : Nat
  ruleCacheTtlSeconds : Int

/-- What the environment does while one order of a batch is handled. -/
structure OrderEnv where
  now : DateTime
  correlationId : String
  submit : String → Python.PyVal → String → Except PyErr Unit
  scan : ScanOrder EnrichmentRule := .physical
  rulesFault : Option PyErr := none
  faults : CommitFaults := {}

/-- The call that processes an order with its rules. -/
def OrderEnv.processCall (e : OrderEnv) (order : ExternalOrder) (rules : List EnrichmentRule) :
    ProcessCall where
  order := order
  rules := rules
  now := e.now
  correlationId := e.correlationId
  submit := e.submit
  faults := e.faults

/-- What the environment does during a polling cycle. -/
structure Cycle where
  /-- The clock when the cycle starts. -/
  started : DateTime
  runId : String
  /-- What a poll for `(updated_since, limit)` gets. -/
  poll : Option DateTime → Nat → Except PyErr (List ExternalOrder)
  /-- The environment of the order at a position of the batch. -/
  env : Nat → OrderEnv

/-- An order of a batch that was processed, and what came of it. -/
structure Handled where
  call : ProcessCall
  outcome : Except PyErr ProcessCall.Result

/-- Whether processing the order raised. -/
def Handled.failed (h : Handled) : Bool := !h.outcome.isOk

/-- The variables of the loop of `run_once`. -/
structure LoopState where
  world : World
  cache : RulesCache
  success : Nat
  failed : Nat
  maxUpdatedAt : DateTime
  handled : List Handled

/-- What `run_once` returns. -/
structure CycleResult where
  fetched : Nat
  success : Nat
  failed : Nat
  maxUpdatedAt : DateTime
  deriving DecidableEq

namespace EnrichmentFacade

variable (f : EnrichmentFacade)

def refreshCall (e : OrderEnv) (order : ExternalOrder) : RefreshCall where
  now := e.now
  ttlSeconds := f.ruleCacheTtlSeconds
  key := ⟨some order.clientCode, some order.facilityCode, order.zoneCode⟩
  scan := e.scan
  fault := e.rulesFault

/-- The body of `for order in orders`. It raises where the rules cannot be
    loaded; an error of the processing is counted. -/
def handleOrder (e : OrderEnv) (order : ExternalOrder) (s : LoopState) : Except PyErr LoopState :=
  match refreshRules (f.refreshCall e order) s.world.db s.cache with
  -- outside the `try` of the loop body
  | (.error err, _) => .error err
  | (.ok rules, cache) =>
    let call := e.processCall order rules
    match call.execute f.process s.world with
    | (outcome, world) => .ok {
        world := world
        cache := cache
        success := if outcome.isOk then s.success + 1 else s.success
        failed := if outcome.isOk then s.failed else s.failed + 1
        -- whatever the outcome: the source folds it before it processes the order
        maxUpdatedAt := s.maxUpdatedAt.pyMax order.updatedAt.asUtc
        handled := s.handled ++ [⟨call, outcome⟩] }

/-- `for order in orders`, from a position of the batch on. An error ends
    the loop where it stands. -/
def handleOrders (env : Nat → OrderEnv) :
    Nat → List ExternalOrder → LoopState → Option PyErr × LoopState
  | _, [], s => (none, s)
  | i, order :: orders, s =>
    match f.handleOrder (env i) order s with
    | .error e => (some e, s)
    | .ok s' => handleOrders env (i + 1) orders s'

/-- `_as_utc(updated_since) if updated_since else started` -/
def startCursor (c : Cycle) : Option DateTime → DateTime
  | some updatedSince => updatedSince.asUtc
  | none => c.started

/-- `EnrichmentFacade.run_once` -/
def runOnce (c : Cycle) (updatedSince : Option DateTime) (w : World) (cache : RulesCache) :
    Except PyErr CycleResult × LoopState :=
  let s : LoopState := ⟨w.issue c.runId, cache, 0, 0, startCursor c updatedSince, []⟩
  match c.poll updatedSince f.pollBatchSize with
  | .error e => (.error e, s)
  | .ok orders =>
    -- a cycle that raises returns no cursor, but its orders stay processed
    match f.handleOrders c.env 0 orders s with
    | (some e, s') => (.error e, s')
    | (none, s') => (.ok ⟨orders.length, s'.success, s'.failed, s'.maxUpdatedAt⟩, s')

end EnrichmentFacade

/-! ## `PollingWorker` -/

/-- The daemon: what is stored and sent, the rule cache, and the cursor
    the worker polls from. -/
structure Daemon where
  world : World
  cache : RulesCache
  updatedSince : Option DateTime

/-- A daemon that starts: it has no cursor and has cached nothing. -/
def Daemon.start (w : World) : Daemon := ⟨w, .empty, none⟩

namespace PollingWorker

/-- `PollingWorker.run_once`: keeps the cursor that `run_once` returns; if
    it raises, the worker keeps the one it had. -/
def runOnce (f : EnrichmentFacade) (c : Cycle) (d : Daemon) :
    Except PyErr (Nat × Nat × Nat) × Daemon :=
  match f.runOnce c d.updatedSince d.world d.cache with
  | (.error e, s) => (.error e, ⟨s.world, s.cache, d.updatedSince⟩)
  | (.ok r, s) => (.ok (r.fetched, r.success, r.failed), ⟨s.world, s.cache, some r.maxUpdatedAt⟩)

end PollingWorker

/-! ## What a cycle does -/

/-- A refresh finds a fresh entry, or the query faults and the cache stays,
    or what it returns replaces the entry. -/
theorem refreshRules_cases (r : RefreshCall) (db : Database) (cache : RulesCache) :
    (∃ e, (cache r.key).filter (·.isFresh r) = some e ∧
      refreshRules r db cache = (.ok e.data, cache)) ∨
    (∃ err, (cache r.key).filter (·.isFresh r) = none ∧ r.fault = some err ∧
      refreshRules r db cache = (.error err, cache)) ∨
    ((cache r.key).filter (·.isFresh r) = none ∧ r.fault = none ∧
      refreshRules r db cache =
        (.ok (r.load db), Function.update cache r.key (some ⟨r.now, r.load db⟩))) := by
  rcases hf : (cache r.key).filter (·.isFresh r) with _ | e
  · rcases hfault : r.fault with _ | err
    · right; right
      refine ⟨hf, rfl, ?_⟩
      simp only [refreshRules, hf, hfault]
    · right; left
      refine ⟨err, hf, rfl, ?_⟩
      simp only [refreshRules, hf, hfault]
  · left
    refine ⟨e, hf, ?_⟩
    simp only [refreshRules, hf]

theorem refreshRules_ok {r : RefreshCall} {db : Database} {cache cache' : RulesCache}
    {rules : List EnrichmentRule} (h : refreshRules r db cache = (.ok rules, cache')) :
    (∃ e, cache r.key = some e ∧ e.isFresh r = true ∧ rules = e.data ∧ cache' = cache) ∨
    (rules = r.load db ∧ cache' = Function.update cache r.key (some ⟨r.now, rules⟩)) := by
  rcases refreshRules_cases r db cache with ⟨e, he, hres⟩ | ⟨_, _, _, hres⟩ | ⟨_, _, hres⟩
  · obtain ⟨hkey, hfresh⟩ := Option.filter_eq_some_iff.mp he
    cases h.symm.trans hres
    exact Or.inl ⟨e, hkey, hfresh, rfl, rfl⟩
  · cases h.symm.trans hres
  · cases h.symm.trans hres
    exact Or.inr ⟨rfl, rfl⟩

/-- **Cache rule**: what holds of every entry, and of the one that the query
    would make, holds of every entry after a refresh; the rules that it
    returns are those of an entry which was fresh, or was made now. -/
theorem refreshRules_rule {P : ScopeKey → CacheEntry → Prop} {r : RefreshCall} {db : Database}
    {cache cache' : RulesCache} {rules : List EnrichmentRule}
    (hr : refreshRules r db cache = (.ok rules, cache')) (h : ∀ key e, cache key = some e → P key e)
    (hload : P r.key ⟨r.now, r.load db⟩) :
    (∀ key e, cache' key = some e → P key e) ∧
      ∃ e, P r.key e ∧ rules = e.data ∧
        (e = ⟨r.now, r.load db⟩ ∨ cache r.key = some e ∧ e.isFresh r = true) := by
  rcases refreshRules_ok hr with ⟨e, hkey, hfresh, rfl, rfl⟩ | ⟨rfl, rfl⟩
  · exact ⟨h, e, h r.key e hkey, rfl, Or.inr ⟨hkey, hfresh⟩⟩
  · refine ⟨?_, _, hload, rfl, Or.inl rfl⟩
    intro key e he
    by_cases hkey : key = r.key
    · subst hkey
      rw [Function.update_self] at he
      rw [← Option.some.inj he]
      exact hload
    · rw [Function.update_of_ne hkey] at he
      exact h key e he

namespace EnrichmentFacade

variable {f : EnrichmentFacade}

/-- Handling an order: its rules come from a refresh, then it is processed. -/
theorem handleOrder_ok {e : OrderEnv} {order : ExternalOrder} {s s' : LoopState}
    (h : f.handleOrder e order s = .ok s') :
    ∃ rules, refreshRules (f.refreshCall e order) s.world.db s.cache = (.ok rules, s'.cache) ∧
      s'.world = ((e.processCall order rules).execute f.process s.world).2 ∧
      s'.maxUpdatedAt = s.maxUpdatedAt.pyMax order.updatedAt.asUtc ∧
      s'.handled = s.handled ++ [⟨e.processCall order rules,
        ((e.processCall order rules).execute f.process s.world).1⟩] := by
  unfold handleOrder at h
  split at h
  · cases h
  · next rules cache hr =>
    cases h
    exact ⟨rules, hr, rfl, rfl, rfl⟩

/-- **Loop rule**: what holds before the loop and is kept by handling one
    order holds where the loop ends, also if it ends with an error. -/
theorem handleOrders_induction {I : LoopState → Prop} {env : Nat → OrderEnv}
    {orders : List ExternalOrder}
    (hstep : ∀ e, ∀ order ∈ orders, ∀ s s', I s → f.handleOrder e order s = .ok s' → I s')
    {i : Nat} {s : LoopState} (hs : I s) : I (f.handleOrders env i orders s).2 := by
  induction orders generalizing i s with
  | nil => exact hs
  | cons order orders ih =>
    unfold handleOrders
    -- an error ends the loop in the state before this order
    cases hh : f.handleOrder (env i) order s with
    | error e => exact hs
    | ok s' =>
      have hs' := hstep (env i) order List.mem_cons_self s s' hs hh
      exact ih (fun e o ho => hstep e o (List.mem_cons_of_mem _ ho)) hs'

/-- The cursor of a loop that ends regularly is the greatest of the one it
    started from and the timestamps of the batch. -/
theorem maxUpdatedAt_handleOrders {env : Nat → OrderEnv} {orders : List ExternalOrder} {i : Nat}
    {s s' : LoopState} (h : f.handleOrders env i orders s = (none, s')) (t : DateTime) :
    s'.maxUpdatedAt ≤ t ↔ s.maxUpdatedAt ≤ t ∧ ∀ o ∈ orders, o.updatedAt ≤ t := by
  induction orders generalizing i s with
  | nil => cases h; simp
  | cons order orders ih =>
    unfold handleOrders at h
    cases hh : f.handleOrder (env i) order s with
    | error e => simp [hh] at h
    | ok s₁ =>
      obtain ⟨_, _, _, hmax, _⟩ := handleOrder_ok hh
      -- the bound on the rest of the batch starts from this order's fold
      simp only [hh] at h
      rw [ih h, hmax, DateTime.pyMax_le_iff, DateTime.asUtc_le_iff]
      simp only [List.mem_cons, forall_eq_or_imp, and_assoc]

/-- A cycle ends where it starts if its poll raises, else where the loop over
    its batch ends. -/
theorem runOnce_cases (f : EnrichmentFacade) (c : Cycle) (updatedSince : Option DateTime) (w : World)
    (cache : RulesCache) :
    let s : LoopState := ⟨w.issue c.runId, cache, 0, 0, startCursor c updatedSince, []⟩
    (∃ e, c.poll updatedSince f.pollBatchSize = .error e ∧
      (f.runOnce c updatedSince w cache).2 = s) ∨
    (∃ orders, c.poll updatedSince f.pollBatchSize = .ok orders ∧
      (f.runOnce c updatedSince w cache).2 = (f.handleOrders c.env 0 orders s).2) := by
  intro s
  unfold runOnce
  cases hpoll : c.poll updatedSince f.pollBatchSize with
  | error e => exact Or.inl ⟨e, rfl, rfl⟩
  | ok orders =>
    refine Or.inr ⟨orders, rfl, ?_⟩
    simp only
    rcases f.handleOrders c.env 0 orders s with ⟨_ | e, s'⟩ <;> rfl

/-- **Cycle rule**: what holds when a cycle starts and is kept by handling
    an order of the batch holds when the cycle ends. -/
theorem runOnce_induction {I : LoopState → Prop} {c : Cycle} {updatedSince : Option DateTime}
    {w : World} {cache : RulesCache}
    (hstart : I ⟨w.issue c.runId, cache, 0, 0, startCursor c updatedSince, []⟩)
    (hstep : ∀ orders, c.poll updatedSince f.pollBatchSize = .ok orders → ∀ e,
      ∀ order ∈ orders, ∀ s s', I s → f.handleOrder e order s = .ok s' → I s') :
    I (f.runOnce c updatedSince w cache).2 := by
  unfold runOnce
  cases hpoll : c.poll updatedSince f.pollBatchSize with
  | error e => exact hstart
  | ok orders =>
    have hloop : I (f.handleOrders c.env 0 orders
        ⟨w.issue c.runId, cache, 0, 0, startCursor c updatedSince, []⟩).2 :=
      handleOrders_induction (hstep orders hpoll) hstart
    simp only
    split <;> next hend => rw [hend] at hloop; exact hloop

end EnrichmentFacade

end RulesEnrichment
