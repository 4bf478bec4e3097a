import RulesEnrichment.CallEffect
import RulesEnrichment.Cache
import RulesEnrichment.Records

/-! # The orders of a batch do not influence each other

    Each order of a batch reads and writes its own rows, and the rules it
    gets from the shared cache are those of the table. So, up to the
    generated ids and the times, each order comes to what it would come to
    on the store as it was when the cycle started (`loop_run`), and
    permuting the batch permutes what the cycle does
    (`batch_order_irrelevant`). -/

namespace RulesEnrichment

open StableSort UnitOfWork KeyedTable RefreshRules

/-! ## A time in which the rules stay the same -/

/-- The instants from `first` to `last`, within the years 1 to 9999. -/
structure TimeSpan where
  first : Int
  last : Int
  inCalendar : (dayMicros : Int) ≤ first ∧ last < (3652060 * dayMicros : Nat)

namespace TimeSpan

variable (sp : TimeSpan)

def Holds (t : DateTime) : Prop := sp.first ≤ t.instant ∧ t.instant ≤ sp.last

instance (t : DateTime) : Decidable (sp.Holds t) := inferInstanceAs (Decidable (_ ∧ _))

/-- No rule starts or ends to be valid within the time. -/
def Steady (db : Database) : Prop :=
  ∀ rule ∈ db.rules.rows, ∀ t, rule.validFrom = some t ∨ rule.validTo = some t → ¬ sp.Holds t

variable {sp}

theorem asUtcInstant_eq_ok {t : DateTime} (ht : sp.Holds t) : t.asUtcInstant = .ok t.instant := by
  have hcalendar := sp.inCalendar
  obtain ⟨hfirst, hlast⟩ := ht
  unfold DateTime.asUtcInstant
  split
  · rfl
  · rw [if_pos (by omega)]

/-- A bound outside the time is on the same side of all of it. -/
theorem le_iff_of_not_holds {t t' b : DateTime} (ht : sp.Holds t) (ht' : sp.Holds t')
    (hb : ¬ sp.Holds b) : (b ≤ t ↔ b ≤ t') ∧ (t ≤ b ↔ t' ≤ b) := by
  unfold Holds at *
  simp only [DateTime.le_def]
  omega

variable {db : Database} {t t' : DateTime}

theorem beforeBound_eq (hdb : sp.Steady db) (ht : sp.Holds t) (ht' : sp.Holds t')
    {rule : EnrichmentRule} (hrule : rule ∈ db.rules.rows) :
    beforeBound t'.instant (rule.validFrom.map DateTime.instant) =
      beforeBound t.instant (rule.validFrom.map DateTime.instant) := by
  cases hf : rule.validFrom with
  | none => simp only [Option.map_none, beforeBound]
  | some f =>
    have hiff := (le_iff_of_not_holds ht ht' (hdb rule hrule f (Or.inl hf))).1
    rw [DateTime.le_def, DateTime.le_def] at hiff
    have hlt : t'.instant < f.instant ↔ t.instant < f.instant := by omega
    exact decide_eq_decide.mpr hlt

theorem afterBound_eq (hdb : sp.Steady db) (ht : sp.Holds t) (ht' : sp.Holds t')
    {rule : EnrichmentRule} (hrule : rule ∈ db.rules.rows) :
    afterBound t'.instant (rule.validTo.map DateTime.instant) =
      afterBound t.instant (rule.validTo.map DateTime.instant) := by
  cases he : rule.validTo with
  | none => simp only [Option.map_none, afterBound]
  | some e =>
    have hiff := (le_iff_of_not_holds ht ht' (hdb rule hrule e (Or.inr he))).2
    rw [DateTime.le_def, DateTime.le_def] at hiff
    have hlt : e.instant < t'.instant ↔ e.instant < t.instant := by omega
    exact decide_eq_decide.mpr hlt

/-- The query returns the same at all of these times. -/
theorem listAt_eq (hdb : sp.Steady db) (ht : sp.Holds t) (ht' : sp.Holds t')
    (scan : ScanOrder EnrichmentRule) (key : ScopeKey) :
    listAt db scan t' key = listAt db scan t key := by
  unfold listAt EnrichmentRuleRepository.listActiveRules
  refine congrArg (sortBy EnrichmentRule.priority) (List.filter_congr ?_)
  intro rule hrule
  have hin : rule ∈ db.rules.rows := (scan.perm _).mem_iff.mp hrule
  rw [windowFilter_eq, windowFilter_eq, beforeBound_eq hdb ht ht' hin, afterBound_eq hdb ht ht' hin]

theorem isValidAt_eq (hdb : sp.Steady db) (ht : sp.Holds t) (ht' : sp.Holds t')
    {rule : EnrichmentRule} (hrule : rule ∈ db.rules.rows) :
    rule.isValidAt t' = rule.isValidAt t := by
  unfold EnrichmentRule.isValidAt
  rw [asUtcInstant_eq_ok ht, asUtcInstant_eq_ok ht']
  simp only
  cases hfrom : optionalUtc rule.validFrom with
  | error e => rfl
  | ok validFromUtc =>
    cases hto : optionalUtc rule.validTo with
    | error e => rfl
    | ok validToUtc =>
      rw [optionalUtc_eq hfrom, optionalUtc_eq hto]
      simp only [beforeBound_eq hdb ht ht' hrule, afterBound_eq hdb ht ht' hrule]

/-- An evaluation comes to the same at all of these times, apart from the
    time it notes. -/
theorem evaluate_eq (hdb : sp.Steady db) (ht : sp.Holds t) (ht' : sp.Holds t') {rt : Runtime}
    {order : ExternalOrder} {rules : List EnrichmentRule} (hrules : ∀ r ∈ rules, r ∈ db.rules.rows) :
    evaluate rt order rules t' =
      (evaluate rt order rules t).map fun d => { d with decisionTimestamp := t' } := by
  have hvalid : validRules t' rules = validRules t rules := by
    induction rules with
    | nil => rfl
    | cons rule rules ih =>
      unfold validRules
      rw [isValidAt_eq hdb ht ht' (hrules rule List.mem_cons_self),
        ih fun r hr => hrules r (List.mem_cons_of_mem _ hr)]
  unfold evaluate
  rw [hvalid]
  cases validRules t rules with
  | error e => rfl
  | ok active =>
    simp only
    cases gather rt order (sortBy EnrichmentRule.priority active) .start with
    | error e => rfl
    | ok acc => rfl

end TimeSpan

/-! ## What is assumed of a cycle -/

/-- The environment of a cycle over `n` orders, started on `w`: the clock
    stays within the time, the rows of the rules come in one order, the
    answers to submissions depend on the content alone, nothing faults,
    and the generated ids are new. -/
structure Calm (sp : TimeSpan) (scan : ScanOrder EnrichmentRule)
    (answer : String → Python.PyVal → Except PyErr Unit) (w : World) (n : Nat) (c : Cycle) : Prop where
  started : sp.Holds c.started
  clock : ∀ i < n, sp.Holds (c.env i).now
  scan : ∀ i < n, (c.env i).scan = scan
  answers : ∀ i < n, AnswersBy answer (c.env i).submit
  rulesFault : ∀ i < n, (c.env i).rulesFault = none
  faults : ∀ i < n, (c.env i).faults = {}
  uuid : ∀ i < n, isUuid (c.env i).correlationId = true
  distinct : ∀ i < n, ∀ j < n, (c.env i).correlationId = (c.env j).correlationId → i = j
  newIds : ∀ i < n, ∀ o, w.db.outbox.find? (messageIdOf (c.env i).correlationId o) = none

/-- The call for an order with the rules of the table at `t`. -/
def callAlone (db : Database) (scan : ScanOrder EnrichmentRule) (t : DateTime)
    (answer : String → Python.PyVal → Except PyErr Unit) (order : ExternalOrder) : ProcessCall where
  order := order
  rules := listAt db scan t (scopeOf order)
  now := t
  correlationId := ""
  submit orderId payload _ := answer orderId (withoutCorrelationId payload)

/-- What the order comes to on the store `w` at `t`, up to ids and times. -/
def effectAlone (uc : ProcessOrderUseCase) (scan : ScanOrder EnrichmentRule) (t : DateTime)
    (answer : String → Python.PyVal → Except PyErr Unit) (w : World) (order : ExternalOrder) :
    CallEffect :=
  ((callAlone w.db scan t answer order).effect uc w).erase

theorem filterMap_snoc {α β : Type} (g : α → Option β) (l : List α) (a : α) :
    (l ++ [a]).filterMap g = l.filterMap g ++ (g a).toList := by
  rw [List.filterMap_append, List.filterMap_cons, List.filterMap_nil]
  cases g a <;> rfl

section loop

variable (f : EnrichmentFacade) (sp : TimeSpan) (scan : ScanOrder EnrichmentRule) (t : DateTime)
  (answer : String → Python.PyVal → Except PyErr Unit) (w₀ : World) (c : Cycle)

/-- The loop after the orders `done`, which came to `effects`. -/
structure LoopAt (done : List ExternalOrder) (s : LoopState) (effects : List CallEffect) : Prop where
  written : Written w₀ s.world (effects.filterMap (·.record)) (effects.filterMap (·.submission))
  /-- Every order came to what it would have come to on `w₀`. -/
  alone : effects.map (·.erase) = done.map (effectAlone f.process scan t answer w₀)
  success : s.success = effects.countP (·.ok)
  failed : s.failed = effects.countP (!·.ok)
  /-- Whatever is cached, the table has as well. -/
  cache : ∀ key e, s.cache key = some e → ∃ t', sp.Holds t' ∧ e.data = listAt w₀.db scan t' key
  orders : List.Sublist ((effects.filterMap (·.record)).map (·.orderId)) (done.map (·.orderId))
  ids : ∀ r ∈ effects.filterMap (·.record),
    ∃ j < done.length, r.correlationId = (c.env j).correlationId

variable {f sp scan t answer w₀ c} {n : Nat} {done : List ExternalOrder} {s : LoopState}
  {effects : List CallEffect} {order : ExternalOrder}

/-- The rules of the next order are those of the table, cached or not. -/
theorem LoopAt.refreshRules_eq (h : LoopAt f sp scan t answer w₀ c done s effects)
    (hc : Calm sp scan answer w₀ n c) (hdb : sp.Steady w₀.db) (ht : sp.Holds t)
    (hn : done.length < n) (order : ExternalOrder) :
    ∃ cache, refreshRules (f.refreshCall (c.env done.length) order) s.world.db s.cache =
        (.ok (listAt w₀.db scan t (scopeOf order)), cache) ∧
      ∀ key e, cache key = some e → ∃ t', sp.Holds t' ∧ e.data = listAt w₀.db scan t' key := by
  have hnow := hc.clock done.length hn
  have hfault : (f.refreshCall (c.env done.length) order).fault = none := hc.rulesFault _ hn
  have hload : (f.refreshCall (c.env done.length) order).load s.world.db =
      listAt w₀.db scan t (scopeOf order) := by
    rw [← TimeSpan.listAt_eq hdb ht hnow]
    unfold RefreshCall.load listAt EnrichmentRuleRepository.listActiveRules
    rw [Session.snapshot_enter, Session.snapshot_enter, h.written.rules]
    unfold EnrichmentFacade.refreshCall
    rw [hc.scan _ hn]
    rfl
  rcases refreshRules_cases (f.refreshCall (c.env done.length) order) s.world.db s.cache with
    ⟨e, hcached, hres⟩ | ⟨err, _, herr, _⟩ | ⟨_, _, hres⟩
  · obtain ⟨hkey, _⟩ := Option.filter_eq_some_iff.mp hcached
    obtain ⟨t', ht', hdata⟩ := h.cache _ e hkey
    refine ⟨s.cache, ?_, h.cache⟩
    rw [hres, hdata, TimeSpan.listAt_eq hdb ht ht']
    rfl
  · simp [hfault] at herr
  · rw [hload] at hres
    refine ⟨_, hres, ?_⟩
    intro key e he
    have hscope : (f.refreshCall (c.env done.length) order).key = scopeOf order := rfl
    rw [hscope] at he
    by_cases hkey : key = scopeOf order
    · subst hkey
      rw [Function.update_self] at he
      cases he
      exact ⟨t, ht, rfl⟩
    · rw [Function.update_of_ne hkey] at he
      exact h.cache key e he

/-- The message id of the next order is free. -/
theorem LoopAt.messageId_free (h : LoopAt f sp scan t answer w₀ c done s effects)
    (hc : Calm sp scan answer w₀ n c) (hn : done.length < n) (o : String) :
    s.world.db.outbox.find? (messageIdOf (c.env done.length).correlationId o) = none := by
  rw [Table.find?_eq_none_iff, h.written.outbox]
  intro m hm hid
  rw [List.mem_append] at hm
  rcases hm with hm | hm
  · exact (Table.find?_eq_none_iff _ _).mp (hc.newIds _ hn o) m hm hid
  · -- the message of an order before, with an id of its own
    obtain ⟨r, hr, rfl⟩ := List.mem_map.mp hm
    obtain ⟨j, hj, hcorrelation⟩ := h.ids r hr
    have hsame : messageIdOf r.correlationId r.orderId =
        messageIdOf (c.env done.length).correlationId o := hid
    rw [hcorrelation] at hsame
    have heq := messageIdOf_inj (hc.uuid j (by omega)) (hc.uuid _ hn) hsame
    have := hc.distinct j (by omega) _ hn heq
    omega

/-- **One order.** It is handled without an error of the loop, and comes to
    what it comes to alone. -/
theorem LoopAt.next (h : LoopAt f sp scan t answer w₀ c done s effects)
    (hc : Calm sp scan answer w₀ n c) (hdb : sp.Steady w₀.db) (ht : sp.Holds t)
    (hn : done.length < n) (hnew : order.orderId ∉ done.map (·.orderId)) :
    ∃ s' e, f.handleOrder (c.env done.length) order s = .ok s' ∧
      LoopAt f sp scan t answer w₀ c (done ++ [order]) s' (effects ++ [e]) := by
  obtain ⟨cache, hrefresh, hcache⟩ := h.refreshRules_eq hc hdb ht hn order
  let call := (c.env done.length).processCall order (listAt w₀.db scan t (scopeOf order))
  have hfaults : call.faults = {} := hc.faults _ hn
  have hfree : s.world.db.outbox.find? (messageIdOf call.correlationId call.order.orderId) = none :=
    h.messageId_free hc hn order.orderId
  obtain ⟨hok, hwritten⟩ := execute_effect f.process hfaults hfree
  have hother : ∀ r ∈ effects.filterMap (·.record), r.orderId ≠ order.orderId := by
    intro r hr heq
    have hin := h.orders.subset (List.mem_map_of_mem hr)
    rw [heq] at hin
    exact hnew hin
  -- the order's own rows are those of the start, so the effect is the one on `w₀`
  have halone : (call.effect f.process s.world).erase =
      effectAlone f.process scan t answer w₀ order := by
    have hrules : ∀ r ∈ listAt w₀.db scan t (scopeOf order), r ∈ w₀.db.rules.rows :=
      fun r hr => (EnrichmentRuleRepository.mem_listActiveRules.mp hr).1
    refine @effect_congr _ (callAlone w₀.db scan t answer order) call _ _ _ rfl
      (TimeSpan.evaluate_eq hdb ht (hc.clock _ hn) hrules) (fun _ _ _ => rfl) (hc.answers _ hn) ?_ ?_
    · exact h.written.attemptNumber_eq (c := call) hother
    · exact h.written.isDuplicate_eq (c := call) hother
  refine ⟨_, call.effect f.process s.world, by
    unfold EnrichmentFacade.handleOrder
    rw [hrefresh], ?_⟩
  have hrecord : ∀ r ∈ (call.effect f.process s.world).record.toList,
      r.orderId = order.orderId ∧ r.correlationId = (c.env done.length).correlationId :=
    fun r hr => ProcessCall.effect_record (Option.mem_toList.mp hr)
  constructor
  · show Written w₀ (call.execute f.process s.world).2 _ _
    rw [filterMap_snoc, filterMap_snoc]
    refine h.written.append hwritten ?_
    intro r hr r' hr'
    rw [(hrecord r' hr').1]
    exact hother r hr
  · rw [List.map_append, List.map_append, h.alone, List.map_singleton, List.map_singleton, halone]
  · show (if (call.execute f.process s.world).1.isOk then s.success + 1 else s.success) = _
    rw [hok, List.countP_append, List.countP_singleton, h.success]
    split <;> rfl
  · show (if (call.execute f.process s.world).1.isOk then s.failed else s.failed + 1) = _
    rw [hok, List.countP_append, List.countP_singleton, h.failed]
    cases (call.effect f.process s.world).ok <;> rfl
  · exact hcache
  · rw [filterMap_snoc, List.map_append, List.map_append]
    refine h.orders.append ?_
    rw [List.map_singleton]
    cases hr : (call.effect f.process s.world).record with
    | none => exact List.nil_sublist _
    | some r =>
      have horder := (hrecord r (by rw [hr]; exact List.mem_singleton.mpr rfl)).1
      rw [← horder]
      exact List.Sublist.refl _
  · intro r hr
    rw [filterMap_snoc, List.mem_append] at hr
    rw [List.length_append, List.length_singleton]
    rcases hr with hr | hr
    · obtain ⟨j, hj, hid⟩ := h.ids r hr
      exact ⟨j, by omega, hid⟩
    · exact ⟨done.length, by omega, (hrecord r hr).2⟩

/-- **The loop.** It ends regularly, and every order has come to what it
    comes to alone. -/
theorem LoopAt.run (hc : Calm sp scan answer w₀ n c) (hdb : sp.Steady w₀.db) (ht : sp.Holds t)
    (orders : List ExternalOrder) (h : LoopAt f sp scan t answer w₀ c done s effects)
    (hn : (done ++ orders).length ≤ n) (hids : ((done ++ orders).map (·.orderId)).Nodup) :
    ∃ s' effects', f.handleOrders c.env done.length orders s = (none, s') ∧
      LoopAt f sp scan t answer w₀ c (done ++ orders) s' effects' := by
  induction orders generalizing done s effects with
  | nil => exact ⟨s, effects, rfl, by rwa [List.append_nil]⟩
  | cons order orders ih =>
    have hlen : done.length < n := by
      rw [List.length_append, List.length_cons] at hn
      omega
    have hnew : order.orderId ∉ done.map (·.orderId) := by
      rw [List.map_append, List.nodup_append] at hids
      intro hin
      exact hids.2.2 _ hin order.orderId (by simp) rfl
    obtain ⟨s₁, e, hstep, h₁⟩ := h.next hc hdb ht hlen hnew
    have happend : done ++ [order] ++ orders = done ++ order :: orders := by
      rw [List.append_assoc]
      rfl
    obtain ⟨s', effects', hrun, h'⟩ := ih h₁ (by rw [happend]; exact hn)
      (by rw [happend]; exact hids)
    rw [List.length_append, List.length_singleton] at hrun
    refine ⟨s', effects', ?_, by rwa [happend] at h'⟩
    unfold EnrichmentFacade.handleOrders
    rw [hstep]
    exact hrun

/-- Before the loop. -/
theorem loopAt_start (cursor : DateTime) :
    LoopAt f sp scan t answer w₀ c [] ⟨w₀.issue c.runId, .empty, 0, 0, cursor, []⟩ [] where
  written := .nothing rfl (List.append_nil _).symm rfl
  alone := rfl
  success := rfl
  failed := rfl
  cache _ _ := nofun
  orders := List.Sublist.refl _
  ids := nofun

end loop

/-! ## Two cycles -/

/-- Two worlds that come from `w₀` hold what the same results write and saw
    the same submissions, in any order and up to the ids and times. -/
def AgreeUpToIds (w₀ w w' : World) : Prop :=
  ∃ records records' sent sent', Written w₀ w records sent ∧ Written w₀ w' records' sent' ∧
    (records.map (·.orderId)).Nodup ∧ (records.map (·.erase)).Perm (records'.map (·.erase)) ∧
    (sent.map (·.erase)).Perm (sent'.map (·.erase))

section

variable {f : EnrichmentFacade} {sp : TimeSpan} {scan : ScanOrder EnrichmentRule} {t : DateTime}
  {answer : String → Python.PyVal → Except PyErr Unit} {w₀ : World} {c c' : Cycle}
  {orders orders' : List ExternalOrder} {s s' : LoopState} {effects effects' : List CallEffect}

theorem countP_erase (effects : List CallEffect) (p : CallEffect → Bool)
    (hp : ∀ e, p e.erase = p e) : effects.countP p = (effects.map (·.erase)).countP p := by
  rw [List.countP_map]
  exact List.countP_congr fun e _ => by simp [hp e]

theorem filterMap_erase_record (effects : List CallEffect) :
    (effects.filterMap (·.record)).map (·.erase) =
      (effects.map (·.erase)).filterMap (·.record) := by
  rw [List.map_filterMap, List.filterMap_map]
  rfl

theorem filterMap_erase_submission (effects : List CallEffect) :
    (effects.filterMap (·.submission)).map (·.erase) =
      (effects.map (·.erase)).filterMap (·.submission) := by
  rw [List.map_filterMap, List.filterMap_map]
  rfl

theorem LoopAt.effects_perm (h : LoopAt f sp scan t answer w₀ c orders s effects)
    (h' : LoopAt f sp scan t answer w₀ c' orders' s' effects') (hperm : orders.Perm orders') :
    (effects.map (·.erase)).Perm (effects'.map (·.erase)) := by
  rw [h.alone, h'.alone]
  exact hperm.map _

theorem LoopAt.success_add_failed (h : LoopAt f sp scan t answer w₀ c orders s effects) :
    s.success + s.failed = orders.length := by
  have hlen : effects.length = orders.length := by
    have := congrArg List.length h.alone
    rwa [List.length_map, List.length_map] at this
  rw [h.success, h.failed, ← hlen, List.length_eq_countP_add_countP (·.ok)]
  congr 1
  exact List.countP_congr fun e _ => by simp

theorem LoopAt.agree (h : LoopAt f sp scan t answer w₀ c orders s effects)
    (h' : LoopAt f sp scan t answer w₀ c' orders' s' effects') (hperm : orders.Perm orders')
    (hids : (orders.map (·.orderId)).Nodup) : AgreeUpToIds w₀ s.world s'.world := by
  have heffects := h.effects_perm h' hperm
  refine ⟨_, _, _, _, h.written, h'.written, hids.sublist h.orders, ?_, ?_⟩
  · rw [filterMap_erase_record, filterMap_erase_record]
    exact heffects.filterMap _
  · rw [filterMap_erase_submission, filterMap_erase_submission]
    exact heffects.filterMap _

end

/-- The greatest timestamp of a batch does not depend on its order. -/
theorem instant_maxUpdatedAt_eq {f : EnrichmentFacade} {env env' : Nat → OrderEnv}
    {orders orders' : List ExternalOrder} (hperm : orders.Perm orders') {i i' : Nat}
    {s s' end₁ end₂ : LoopState} (h : f.handleOrders env i orders s = (none, end₁))
    (h' : f.handleOrders env' i' orders' s' = (none, end₂))
    (hstart : s.maxUpdatedAt = s'.maxUpdatedAt) :
    end₁.maxUpdatedAt.instant = end₂.maxUpdatedAt.instant := by
  have hiff : ∀ t, end₁.maxUpdatedAt ≤ t ↔ end₂.maxUpdatedAt ≤ t := by
    intro t
    rw [EnrichmentFacade.maxUpdatedAt_handleOrders h t,
      EnrichmentFacade.maxUpdatedAt_handleOrders h' t, hstart]
    refine and_congr Iff.rfl ?_
    constructor
    · exact fun hall o ho => hall o (hperm.mem_iff.mpr ho)
    · exact fun hall o ho => hall o (hperm.mem_iff.mp ho)
  have hle : end₁.maxUpdatedAt.instant ≤ end₂.maxUpdatedAt.instant :=
    (hiff end₂.maxUpdatedAt).mpr (le_refl _)
  have hge : end₂.maxUpdatedAt.instant ≤ end₁.maxUpdatedAt.instant :=
    (hiff end₁.maxUpdatedAt).mp (le_refl _)
  omega

/-- **Batches.** Two cycles that start from one store and one cursor with
    an empty cache, one over a batch and one over a permutation of it,
    count the same, return the same cursor if they started from one, and
    leave worlds that agree up to ids and times. -/
theorem batch_order_irrelevant (f : EnrichmentFacade) {orders orders' : List ExternalOrder}
    (hperm : orders.Perm orders') (hids : (orders.map (·.orderId)).Nodup) {w : World}
    {sp : TimeSpan} (hsteady : sp.Steady w.db) {scan : ScanOrder EnrichmentRule}
    {answer : String → Python.PyVal → Except PyErr Unit} {c c' : Cycle}
    (hc : Calm sp scan answer w orders.length c) (hc' : Calm sp scan answer w orders.length c')
    {updatedSince : Option DateTime} (hpoll : c.poll updatedSince f.pollBatchSize = .ok orders)
    (hpoll' : c'.poll updatedSince f.pollBatchSize = .ok orders') :
    ∃ r r', (f.runOnce c updatedSince w .empty).1 = .ok r ∧
      (f.runOnce c' updatedSince w .empty).1 = .ok r' ∧
      r.fetched = r'.fetched ∧ r.success = r'.success ∧ r.failed = r'.failed ∧
      r.success + r.failed = r.fetched ∧
      (updatedSince.isSome → r.maxUpdatedAt.instant = r'.maxUpdatedAt.instant) ∧
      AgreeUpToIds w (f.runOnce c updatedSince w .empty).2.world
        (f.runOnce c' updatedSince w .empty).2.world := by
  have hids' : (orders'.map (·.orderId)).Nodup := ((hperm.map _).nodup_iff).mp hids
  obtain ⟨s, effects, hrun, h⟩ := LoopAt.run hc hsteady hc.started orders
    (loopAt_start (EnrichmentFacade.startCursor c updatedSince)) (Nat.le_refl _) hids
  obtain ⟨s', effects', hrun', h'⟩ := LoopAt.run hc' hsteady hc.started orders'
    (loopAt_start (EnrichmentFacade.startCursor c' updatedSince)) (Nat.le_of_eq hperm.length_eq.symm)
    hids'
  have hresult : f.runOnce c updatedSince w .empty =
      (.ok ⟨orders.length, s.success, s.failed, s.maxUpdatedAt⟩, s) := by
    unfold EnrichmentFacade.runOnce
    simp only [hpoll]
    rw [show f.handleOrders c.env 0 orders _ = _ from hrun]
  have hresult' : f.runOnce c' updatedSince w .empty =
      (.ok ⟨orders'.length, s'.success, s'.failed, s'.maxUpdatedAt⟩, s') := by
    unfold EnrichmentFacade.runOnce
    simp only [hpoll']
    rw [show f.handleOrders c'.env 0 orders' _ = _ from hrun']
  have heffects := h.effects_perm h' hperm
  rw [hresult, hresult']
  refine ⟨_, _, rfl, rfl, hperm.length_eq, ?_, ?_, h.success_add_failed, ?_, h.agree h' hperm hids⟩
  · show s.success = s'.success
    rw [h.success, h'.success, countP_erase effects _ fun _ => rfl,
      countP_erase effects' _ fun _ => rfl]
    exact heffects.countP_eq _
  · show s.failed = s'.failed
    rw [h.failed, h'.failed, countP_erase effects _ fun _ => rfl,
      countP_erase effects' _ fun _ => rfl]
    exact heffects.countP_eq _
  · intro hsome
    obtain ⟨u, rfl⟩ := Option.isSome_iff_exists.mp hsome
    exact instant_maxUpdatedAt_eq hperm hrun hrun' rfl

namespace Sample

def facade : EnrichmentFacade := ⟨useCase 3, 100, 30⟩

/-- A cycle over some orders; every submission is accepted. -/
def calmCycle (orders : List ExternalOrder) (started : DateTime) : Cycle where
  started := started
  runId := "run"
  poll _ _ := .ok orders
  env i := { now := eleven, correlationId := if i = 0 then correlationId else secondId,
             submit := accept }

def morning : TimeSpan := ⟨nine.instant, eleven.instant, by decide⟩

theorem calm_calmCycle (orders : List ExternalOrder) {started : DateTime}
    (hstarted : morning.Holds started) :
    Calm morning .physical (fun _ _ => .ok ()) (World.fresh rules) 2
      (calmCycle orders started) where
  started := hstarted
  clock _ _ := show morning.Holds eleven by decide
  scan _ _ := rfl
  answers _ _ _ _ _ := rfl
  rulesFault _ _ := rfl
  faults _ _ := rfl
  uuid i hi := by
    match i with
    | 0 => exact show isUuid correlationId = true by decide
    | 1 => exact show isUuid secondId = true by decide
  distinct i hi j hj h := by
    have hne : correlationId ≠ secondId := by decide
    match i, j with
    | 0, 0 => rfl
    | 0, 1 => exact absurd h hne
    | 1, 0 => exact absurd h.symm hne
    | 1, 1 => rfl
  newIds _ _ _ := rfl

end Sample

theorem batch_order_irrelevant_sample :
    let orders := [Sample.order "ORD-1" Sample.nine, Sample.order "ORD-2" Sample.ten]
    let c := Sample.calmCycle orders Sample.nine
    let c' := Sample.calmCycle orders.reverse Sample.ten
    AgreeUpToIds (World.fresh Sample.rules)
      (Sample.facade.runOnce c (some Sample.nine) (World.fresh Sample.rules) .empty).2.world
      (Sample.facade.runOnce c' (some Sample.nine) (World.fresh Sample.rules) .empty).2.world := by
  intro orders c c'
  have hsteady : Sample.morning.Steady (World.fresh Sample.rules).db := by
    intro rule hrule t ht
    rw [List.mem_singleton.mp hrule] at ht
    rcases ht with ht | ht <;> cases ht
  have hcalm : Calm Sample.morning .physical (fun _ _ => .ok ()) (World.fresh Sample.rules) 2 c :=
    Sample.calm_calmCycle orders (by decide)
  have hcalm' : Calm Sample.morning .physical (fun _ _ => .ok ()) (World.fresh Sample.rules) 2 c' :=
    Sample.calm_calmCycle orders.reverse (by decide)
  obtain ⟨_, _, _, _, _, _, _, _, _, hagree⟩ := batch_order_irrelevant Sample.facade
    (List.reverse_perm orders).symm (by decide) hsteady hcalm hcalm'
    (rfl : c.poll (some Sample.nine) 100 = .ok orders)
    (rfl : c'.poll (some Sample.nine) 100 = .ok orders.reverse)
  exact hagree

end RulesEnrichment
