import RulesEnrichment.Cursor
import RulesEnrichment.Records

/-! # The scope of rules

    A rule may be restricted to a client, a facility and a zone. Scope is
    enforced by the `WHERE` clauses of `list_active_rules` alone, and the
    rules they select are kept in the cache under the order's codes
    (`CacheInScope`). An absent or empty code of the order drops its
    clause, so there a restricted rule gets through; `rulesInScope` says
    when none does. -/

namespace RulesEnrichment

open StepMachine UnitOfWork KeyedTable

/-! ## Scope -/

/-- The rule's code is open, or it is the order's. -/
def codeMatches (rule order : Option String) : Prop := rule = none ∨ rule = order

/-- The rule is meant for the order. -/
structure InScope (r : EnrichmentRule) (order : ExternalOrder) : Prop where
  client : codeMatches r.clientCode (some order.clientCode)
  facility : codeMatches r.facilityCode (some order.facilityCode)
  zone : codeMatches r.zoneCode order.zoneCode

/-- A code the query takes for no restriction. -/
def isEmptyCode : Option String → Bool
  | none => true
  | some c => c = ""

/-- The rule is open, or agrees, wherever the order's code is empty. -/
structure OpenWhereEmpty (r : EnrichmentRule) (order : ExternalOrder) : Prop where
  client : isEmptyCode (some order.clientCode) = true →
    codeMatches r.clientCode (some order.clientCode)
  facility : isEmptyCode (some order.facilityCode) = true →
    codeMatches r.facilityCode (some order.facilityCode)
  zone : isEmptyCode order.zoneCode = true → codeMatches r.zoneCode order.zoneCode

/-- The order's codes, as the facade passes them to the query. -/
def ExternalOrder.selects (order : ExternalOrder) (r : EnrichmentRule) : Bool :=
  EnrichmentRuleRepository.scopeFilter (some order.clientCode) (some order.facilityCode)
    order.zoneCode r

/-- A clause that is not dropped enforces its code. -/
theorem codeMatches_of_codeFilter {argument column : Option String}
    (h : EnrichmentRuleRepository.codeFilter argument column = true)
    (hne : isEmptyCode argument = false) : codeMatches column argument := by
  cases argument with
  | none => cases hne
  | some c =>
    have hc : c ≠ "" := by simpa [isEmptyCode] using hne
    simp only [EnrichmentRuleRepository.codeFilter, hc, false_or, decide_eq_true_eq] at h
    exact h.symm

theorem inScope_of_selects {r : EnrichmentRule} {order : ExternalOrder}
    (h : order.selects r = true) (hopen : OpenWhereEmpty r order) : InScope r order := by
  simp only [ExternalOrder.selects, EnrichmentRuleRepository.scopeFilter, Bool.and_eq_true] at h
  obtain ⟨⟨hclient, hfacility⟩, hzone⟩ := h
  refine ⟨?_, ?_, ?_⟩
  · cases he : isEmptyCode (some order.clientCode) with
    | true => exact hopen.client he
    | false => exact codeMatches_of_codeFilter hclient he
  · cases he : isEmptyCode (some order.facilityCode) with
    | true => exact hopen.facility he
    | false => exact codeMatches_of_codeFilter hfacility he
  · cases he : isEmptyCode order.zoneCode with
    | true => exact hopen.zone he
    | false => exact codeMatches_of_codeFilter hzone he

/-! ## What the cache holds -/

/-- Every cached rule is a row of the table that its key selects. -/
def CacheInScope (rows : List EnrichmentRule) (cache : RulesCache) : Prop :=
  ∀ key e, cache key = some e → ∀ r ∈ e.data, r ∈ rows ∧
    EnrichmentRuleRepository.scopeFilter key.clientCode key.facilityCode key.zoneCode r = true

theorem cacheInScope_empty (rows : List EnrichmentRule) : CacheInScope rows RulesCache.empty := by
  intro key e he
  cases he

/-- A refresh keeps this, and what it returns is selected by its key. -/
theorem refreshRules_inScope {r : RefreshCall} {db : Database} {cache cache' : RulesCache}
    {rules : List EnrichmentRule} (h : CacheInScope db.rules.rows cache)
    (hr : refreshRules r db cache = (.ok rules, cache')) :
    CacheInScope db.rules.rows cache' ∧ ∀ x ∈ rules, x ∈ db.rules.rows ∧
      EnrichmentRuleRepository.scopeFilter r.key.clientCode r.key.facilityCode
        r.key.zoneCode x = true := by
  rcases refreshRules_ok hr with ⟨e, hkey, _, rfl, rfl⟩ | ⟨rfl, rfl⟩
  · exact ⟨h, h r.key e hkey⟩
  · have hload : ∀ x ∈ r.load db, x ∈ db.rules.rows ∧
        EnrichmentRuleRepository.scopeFilter r.key.clientCode r.key.facilityCode
          r.key.zoneCode x = true := by
      intro x hx
      obtain ⟨hin, _, _, hscope⟩ := EnrichmentRuleRepository.mem_listActiveRules.mp hx
      exact ⟨hin, hscope⟩
    refine ⟨?_, hload⟩
    intro key e he
    by_cases hk : key = r.key
    · -- the new entry holds what the query returned
      subst hk
      rw [Function.update_self] at he
      cases he
      exact hload
    · rw [Function.update_of_ne hk] at he
      exact h key e he

/-- Processing an order does not touch the rules. -/
theorem ProcessCall.rules_execute (uc : ProcessOrderUseCase) (c : ProcessCall) (w : World) :
    (c.execute uc w).2.db.rules = w.db.rules := by
  have hwrites := c.execute_writes uc w
  generalize (c.execute uc w).2.db = db at hwrites ⊢
  cases hwrites with
  | nothing => rfl
  | result r _ hr hrec => exact hrec.rules
  | deadLettered r db₁ _ hr hrec hdead => exact hdead.rules.trans hrec.rules

/-! ## Runs of the facade -/

namespace PollingWorker

/-- What holds in the loop of `run_once`, the table being `rows`. -/
structure SelectedFrom (rows : List EnrichmentRule) (s : LoopState) : Prop where
  table : s.world.db.rules.rows = rows
  cache : CacheInScope rows s.cache
  handled : ∀ h ∈ s.handled, ∀ r ∈ h.call.rules, r ∈ rows ∧ h.call.order.selects r = true

theorem SelectedFrom.preserve_handleOrder {f : EnrichmentFacade} {rows : List EnrichmentRule}
    {e : OrderEnv} {order : ExternalOrder} {s s' : LoopState} (h : SelectedFrom rows s)
    (hstep : f.handleOrder e order s = .ok s') : SelectedFrom rows s' := by
  obtain ⟨rules, hrefresh, hworld, _, hhandled⟩ := EnrichmentFacade.handleOrder_ok hstep
  have hbefore : CacheInScope s.world.db.rules.rows s.cache := by
    rw [h.table]
    exact h.cache
  obtain ⟨hcache, hrules⟩ := refreshRules_inScope hbefore hrefresh
  rw [h.table] at hcache hrules
  refine ⟨?_, hcache, ?_⟩
  · -- the loop only processes orders, and that leaves the table alone
    rw [hworld, ProcessCall.rules_execute]
    exact h.table
  · intro x hx
    rw [hhandled, List.mem_append, List.mem_singleton] at hx
    rcases hx with hx | rfl
    · exact h.handled x hx
    · exact hrules

/-- A cycle on a daemon whose cache is in scope. -/
theorem selectedFrom_cycleEnd {f : EnrichmentFacade} {d : Daemon} {c : Cycle}
    {rows : List EnrichmentRule} (htable : d.world.db.rules.rows = rows)
    (hcache : CacheInScope rows d.cache) : SelectedFrom rows (cycleEnd f d c) := by
  refine EnrichmentFacade.runOnce_induction ⟨htable, hcache, by simp⟩ ?_
  intro orders _ e order _ s s' hs hstep
  exact hs.preserve_handleOrder hstep

/-- The table and the cache of the daemon, in every state of a run. -/
theorem selectedFrom_visits {f : EnrichmentFacade} {d : Daemon} {rows : List EnrichmentRule}
    {cs : List Cycle} (htable : d.world.db.rules.rows = rows) (hcache : CacheInScope rows d.cache) :
    ∀ p ∈ (machine f id fun _ _ => True).visits d cs, SelectedFrom rows (cycleEnd f p.1 p.2) := by
  -- the cache outlives a cycle, also one that raises
  have hstep : ∀ d c, d.world.db.rules.rows = rows ∧ CacheInScope rows d.cache → True →
      (runOnce f c d).2.world.db.rules.rows = rows ∧ CacheInScope rows (runOnce f c d).2.cache := by
    intro d c ⟨ht, hc⟩ _
    have hend := selectedFrom_cycleEnd (f := f) (c := c) ht hc
    unfold cycleEnd at hend
    unfold runOnce
    split <;> next hres => rw [hres] at hend; exact ⟨hend.table, hend.cache⟩
  intro p hp
  obtain ⟨ht, hc⟩ := (machine f id fun _ _ => True).visits_of_invariant hstep ⟨htable, hcache⟩
    (fun _ _ => trivial) p hp
  exact selectedFrom_cycleEnd ht hc

/-- Every rule in the decision on a handled order is meant for the order. -/
def AppliesInScope (f : EnrichmentFacade) (rows : List EnrichmentRule) (c : ProcessCall) : Prop :=
  ∀ d, evaluate f.process.runtime c.order c.rules c.now = .ok d →
    ∀ r ∈ rows, r.ruleId ∈ d.matchedRules → InScope r c.order

/-- Every rule of the table that is valid, holds on the order and is
    selected by its non-empty codes is open where a code is empty. -/
def OpenRules (f : EnrichmentFacade) (rows : List EnrichmentRule) (c : ProcessCall) : Prop :=
  ∀ r ∈ rows, r.applies f.process.runtime c.order c.now = true → c.order.selects r = true →
    OpenWhereEmpty r c.order

/-- **Scope.** In a run over a rule table, the decision on an order lists
    only rules meant for it, if the table's rules are open where the
    order's codes are empty. -/
theorem rulesInScope (f : EnrichmentFacade) (w : World) (cs : List Cycle)
    (hopen : ∀ p ∈ (machine f id fun _ _ => True).visits (Daemon.start w) cs,
      ∀ h ∈ (cycleEnd f p.1 p.2).handled, OpenRules f w.db.rules.rows h.call) :
    ∀ p ∈ (machine f id fun _ _ => True).visits (Daemon.start w) cs,
      ∀ h ∈ (cycleEnd f p.1 p.2).handled, AppliesInScope f w.db.rules.rows h.call := by
  intro p hp h hh d heval r hr hid
  have hsel : SelectedFrom w.db.rules.rows (cycleEnd f p.1 p.2) :=
    selectedFrom_visits rfl (cacheInScope_empty _) p hp
  obtain ⟨_, rfl⟩ := evaluate_eq_ok_iff.mp heval
  -- the rule with this id that applied is the row `r`
  obtain ⟨r', hr', hid'⟩ := List.mem_map.mp hid
  obtain ⟨hin, happ⟩ := mem_matchingRules.mp hr'
  obtain ⟨hrow, hselects⟩ := hsel.handled h hh r' hin
  have heq : r' = r := Table.eq_of_key w.db.rules hrow hr hid'
  subst heq
  exact inScope_of_selects hselects (hopen p hp h hh r' hr happ hselects)

/-! ### Rules of a client and of a zone -/

def clientRule : EnrichmentRule := { Sample.rule "R-DHL" "ES01" with clientCode := some "DHL" }

def zoneRule : EnrichmentRule := { Sample.rule "R-ZONE" "ES01" with zoneCode := some "Z1" }

def scopedDaemon : Daemon := Daemon.start (World.fresh ⟨[clientRule, zoneRule], by decide⟩)

/-- An order of the client, in another zone. -/
def zonedCycle : Cycle :=
  { failingCycle with
    poll := fun _ _ => .ok [{ Sample.order "ORD-1" Sample.nine with zoneCode := some "Z2" }] }

/-- The rule of the client is applied, and that of the other zone is not. -/
theorem rulesInScope_zonedCycle :
    (cycleEnd sampleFacade scopedDaemon zonedCycle).handled.map
      (fun h => (evaluate Sample.runtime h.call.order h.call.rules h.call.now).toOption.map
        EnrichmentDecision.matchedRules) = [some ["R-DHL"]] ∧
    ∀ p ∈ (machine sampleFacade id fun _ _ => True).visits scopedDaemon [zonedCycle],
      ∀ h ∈ (cycleEnd sampleFacade p.1 p.2).handled,
        AppliesInScope sampleFacade [clientRule, zoneRule] h.call := by
  refine ⟨rfl, rulesInScope sampleFacade (World.fresh ⟨[clientRule, zoneRule], by decide⟩)
    [zonedCycle] ?_⟩
  intro p hp h hh r _ _ _
  rw [List.mem_singleton.mp hp] at hh
  -- no code of the order is empty, so no clause is dropped
  have hcodes : (cycleEnd sampleFacade scopedDaemon zonedCycle).handled.all (fun h =>
      !isEmptyCode (some h.call.order.clientCode) && !isEmptyCode (some h.call.order.facilityCode) &&
        !isEmptyCode h.call.order.zoneCode) = true := rfl
  have hall := List.all_eq_true.mp hcodes h hh
  simp only [Bool.and_eq_true, Bool.not_eq_true'] at hall
  obtain ⟨⟨hclient, hfacility⟩, hzone⟩ := hall
  exact ⟨fun he => absurd (he.symm.trans hclient) (by decide),
    fun he => absurd (he.symm.trans hfacility) (by decide),
    fun he => absurd (he.symm.trans hzone) (by decide)⟩

/-! ### A rule of one zone on an order without a zone -/

def zoneDaemon : Daemon := Daemon.start (World.fresh ⟨[zoneRule], by decide⟩)

theorem zone_rule_applied_without_zone :
    ∃ h ∈ (cycleEnd sampleFacade zoneDaemon failingCycle).handled,
      h.call.order.zoneCode = none ∧ ¬ AppliesInScope sampleFacade [zoneRule] h.call := by
  have hhead : (cycleEnd sampleFacade zoneDaemon failingCycle).handled.head?.map
      (fun h => (h.call.order.zoneCode,
        (evaluate Sample.runtime h.call.order h.call.rules h.call.now).toOption.map
          EnrichmentDecision.matchedRules)) = some (none, some ["R-ZONE"]) := by rfl
  obtain ⟨h, hh, hfacts⟩ := Option.map_eq_some_iff.mp hhead
  obtain ⟨hzone, hmatched⟩ := Prod.mk.inj hfacts
  refine ⟨h, List.mem_of_mem_head? hh, hzone, ?_⟩
  intro hscope
  cases heval : evaluate Sample.runtime h.call.order h.call.rules h.call.now with
  | error e => simp [heval, Except.toOption] at hmatched
  | ok d =>
    have hids : d.matchedRules = ["R-ZONE"] := by simpa [heval, Except.toOption] using hmatched
    have hlisted : zoneRule.ruleId ∈ d.matchedRules := by
      rw [hids]
      decide
    have hin := hscope d heval zoneRule (List.mem_singleton.mpr rfl) hlisted
    -- the rule's zone is neither open nor the order's
    have hz : codeMatches zoneRule.zoneCode h.call.order.zoneCode := hin.zone
    rw [hzone] at hz
    rcases hz with hz | hz <;> cases hz

end PollingWorker

end RulesEnrichment
