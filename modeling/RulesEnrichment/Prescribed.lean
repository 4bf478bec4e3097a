import RulesEnrichment.ConflictResolution
import RulesEnrichment.Deployment
import RulesEnrichment.Staleness

/-! # What is submitted is what the rules prescribe

    From the table to the body of a submission, over all that lies between:
    the query for the codes of an order, the cache before it, the second
    test of the validity, the conditions, and the fields of the rules that
    remain, merged in the order of their priorities.

    * `submissions_prescribed`: whatever fails, and whichever commands are
      run, a body says what the table prescribes for its order that the
      process has queried for it, or for one of its codes that is not older
      than the cache allows. -/

namespace RulesEnrichment

open StepMachine Python StableSort UnitOfWork RefreshRules PollingWorker DaemonProcess

/-! ## What a table prescribes -/

/-- What the rows prescribe for an order, if they are queried at `t` and
    applied at `now`. -/
structure Prescribes (rt : Runtime) (rows : List EnrichmentRule) (order : ExternalOrder)
    (t now : DateTime) (matched : List EnrichmentRule) (fields : JsonObject) : Prop where
  /-- The rules that are active, valid at both times and meant for the codes
      of the order, and whose conditions hold on it. -/
  selected : ∀ r, r ∈ matched ↔ r ∈ rows ∧ r.isActive = true ∧
    EnrichmentRuleRepository.windowFilter t r = true ∧ order.selects r = true ∧
    r.isValidAt now = .ok true ∧ r.matches rt order = .ok true
  once : (matched.map (·.ruleId)).Nodup
  ascending : matched.Pairwise fun r r' => r.priority ≤ r'.priority
  /-- A field has the value that the last rule with the field gives it. -/
  fields : ∀ k v, fields.lookup k = some v ↔ ∃ before r after, matched = before ++ r :: after ∧
    r.enrichmentJson.lookup k = some v ∧ ∀ r' ∈ after, r'.enrichmentJson.lookup k = none

theorem lookup_mergeFields_iff {matched : List EnrichmentRule} {k : String} {v : PyVal} :
    (mergeFields .empty matched).lookup k = some v ↔
      ∃ before r after, matched = before ++ r :: after ∧ r.enrichmentJson.lookup k = some v ∧
        ∀ r' ∈ after, r'.enrichmentJson.lookup k = none := by
  constructor
  · intro h
    have hsome : (mergeFields .empty matched).lookup k ≠ none := by
      rw [h]
      exact Option.some_ne_none v
    obtain ⟨before, r, after, rfl, hr, hafter⟩ :=
      exists_last_definer (lookup_mergeFields_ne_none_iff.mp hsome)
    obtain ⟨v', hv'⟩ := Option.ne_none_iff_exists'.mp hr
    rw [lookup_mergeFields_of_last hv' hafter] at h
    exact ⟨before, r, after, rfl, hv'.trans h, hafter⟩
  · rintro ⟨before, r, after, rfl, hr, hafter⟩
    exact lookup_mergeFields_of_last hr hafter

/-- The rules that evaluation finds among the rows of a query. -/
theorem prescribes_matchingRules (rt : Runtime) (db : Database) (order : ExternalOrder)
    (scan : ScanOrder EnrichmentRule) (t now : DateTime) :
    let matched := matchingRules rt order now (listAt db scan t (scopeOf order))
    Prescribes rt db.rules.rows order t now matched (mergeFields .empty matched) := by
  intro matched
  refine ⟨?_, ?_, sortBy_pairwise _ _, fun k v => lookup_mergeFields_iff⟩
  · intro r
    rw [mem_matchingRules, EnrichmentRule.applies_iff]
    unfold listAt
    rw [EnrichmentRuleRepository.mem_listActiveRules]
    constructor
    · rintro ⟨⟨hrow, hactive, hwindow, hscope⟩, hvalid, hmatch⟩
      exact ⟨hrow, hactive, hwindow, hscope, hvalid, hmatch⟩
    · rintro ⟨hrow, hactive, hwindow, hscope, hvalid, hmatch⟩
      exact ⟨⟨hrow, hactive, hwindow, hscope⟩, hvalid, hmatch⟩
  · -- sorted and filtered rows of a table
    have hrows : ((listAt db scan t (scopeOf order)).map (·.ruleId)).Nodup := by
      unfold listAt EnrichmentRuleRepository.listActiveRules
      refine ((sortBy_perm _ _).map _).nodup_iff.mpr ?_
      refine List.Nodup.sublist (List.filter_sublist.map _) ?_
      exact ((scan.perm _).map _).nodup_iff.mpr db.rules.nodup
    refine ((sortBy_perm _ _).map _).nodup_iff.mpr ?_
    exact hrows.sublist (List.filter_sublist.map _)

/-- The body that the submission of a call should have. -/
def ProcessCall.bodyOf (uc : ProcessOrderUseCase) (c : ProcessCall) (matched : List EnrichmentRule)
    (fields : JsonObject) : PyVal :=
  .dict [("correlation_id", .str c.correlationId), ("source_system", .str uc.sourceSystem),
    ("enrichment_version", .int uc.enrichmentVersion),
    ("applied_rules", .list (matched.map fun r => r.appliedDetail.toVal)),
    ("enriched_fields", fields.toVal)]

/-- The submission is one of the call, and its body says what the rows
    prescribe for the order now, if they were queried at `t`. -/
def Submission.PrescribedBy (f : EnrichmentFacade) (rows : List EnrichmentRule) (t : DateTime)
    (c : ProcessCall) (x : Submission) : Prop :=
  c.IsSubmission f.process x ∧ ∃ matched fields,
    Prescribes f.process.runtime rows c.order t c.now matched fields ∧ matched ≠ [] ∧
    x.payload = c.bodyOf f.process matched fields

/-- The submission of a call with rules that a query returned. -/
theorem prescribedBy_of_listAt {f : EnrichmentFacade} {c : ProcessCall} {x : Submission}
    {db : Database} {scan : ScanOrder EnrichmentRule} {t : DateTime}
    (hx : c.IsSubmission f.process x) (hrules : c.rules = listAt db scan t (scopeOf c.order)) :
    x.PrescribedBy f db.rules.rows t c := by
  obtain ⟨d, heval, hmatches, hpayload⟩ := hx.decided
  obtain ⟨_, rfl⟩ := evaluate_eq_ok_iff.mp heval
  rw [hrules] at hmatches hpayload
  refine ⟨hx, _, _, prescribes_matchingRules f.process.runtime db c.order scan t c.now,
    (decisionOf_resolves _).hasMatches.mp hmatches, ?_⟩
  rw [hpayload]
  unfold ProcessCall.payload ProcessCall.bodyOf payloadToDict buildPayload decisionOf
  simp only [List.map_map]
  rfl

/-! ## Orders that share a query

    A process asks the table for an order, and for those that follow it and
    have the same codes the cache may answer. -/

/-- An order that a cycle handled, and the database that the cycle began
    with; a cycle writes no rules. -/
structure Handling where
  db : Database
  handled : Handled

namespace Handling

def call (e : Handling) : ProcessCall := e.handled.call

/-- The rules of `e` may be those of the query for `e'`: that asked for the
    same codes, and either it is the query of `e` itself, or it is not
    longer ago than the cache keeps its entries, in rounded seconds. -/
def MayReuse (f : EnrichmentFacade) (e e' : Handling) : Prop :=
  scopeOf e'.call.order = scopeOf e.call.order ∧ (e' = e ∨
    (totalSeconds (e.call.now.instant - e'.call.now.instant)).value ≤ f.ruleCacheTtlSeconds)

end Handling

/-- One of the orders was submitted, with what the rules prescribe that were
    queried for it, or for one before it. -/
def Submission.Prescribed (f : EnrichmentFacade) (es : List Handling) (x : Submission) : Prop :=
  ∃ before e after, es = before ++ e :: after ∧ ∃ e' ∈ before ++ [e],
    e.MayReuse f e' ∧ x.PrescribedBy f e'.db.rules.rows e'.call.now e.call

theorem Submission.Prescribed.append {f : EnrichmentFacade} {es : List Handling} {x : Submission}
    (h : x.Prescribed f es) (es' : List Handling) : x.Prescribed f (es ++ es') := by
  obtain ⟨before, e, after, rfl, hrest⟩ := h
  exact ⟨before, e, after ++ es', by rw [List.append_assoc]; rfl, hrest⟩

/-! ## What the cache holds -/

/-- What is cached is what the query for one of the orders returned. -/
def CacheLoaded (es : List Handling) (cache : RulesCache) : Prop :=
  ∀ key entry, cache key = some entry → ∃ e ∈ es, scopeOf e.call.order = key ∧
    e.call.now = entry.ts ∧ ∃ scan, entry.data = listAt e.db scan entry.ts key

namespace CacheLoaded

variable {es : List Handling} {cache : RulesCache}

theorem empty : CacheLoaded es .empty := fun _ _ he => by cases he

theorem append (h : CacheLoaded es cache) (es' : List Handling) : CacheLoaded (es ++ es') cache := by
  intro key entry hentry
  obtain ⟨e, he, hrest⟩ := h key entry hentry
  exact ⟨e, List.mem_append_left _ he, hrest⟩

/-- The refresh for an order, on a database with the rules of `e.db`,
    returns what the query for it or for an order before it returned. -/
theorem refresh {f : EnrichmentFacade} {e : Handling} {env : OrderEnv} {db : Database}
    {rules : List EnrichmentRule} {cache' : RulesCache} (h : CacheLoaded es cache)
    (hrules : db.rules = e.db.rules) (hnow : e.call.now = env.now)
    (hr : refreshRules (f.refreshCall env e.call.order) db cache = (.ok rules, cache')) :
    CacheLoaded (es ++ [e]) cache' ∧ ∃ e' ∈ es ++ [e], e.MayReuse f e' ∧
      ∃ scan, rules = listAt e'.db scan e'.call.now (scopeOf e.call.order) := by
  have hlast : e ∈ es ++ [e] := List.mem_append_right _ (List.mem_singleton.mpr rfl)
  have hload : (f.refreshCall env e.call.order).load db =
      listAt e.db env.scan env.now (scopeOf e.call.order) := listAt_congr hrules _ _ _
  obtain ⟨hcache, entry, hkept, rfl, hmade⟩ :=
    refreshRules_rule (P := fun key entry => ∃ e' ∈ es ++ [e], scopeOf e'.call.order = key ∧
      e'.call.now = entry.ts ∧ ∃ scan, entry.data = listAt e'.db scan entry.ts key) hr
      (h.append [e]) ⟨e, hlast, rfl, hnow, env.scan, hload⟩
  refine ⟨hcache, ?_⟩
  rcases hmade with rfl | ⟨_, hfresh⟩
  · -- queried for this order
    exact ⟨e, hlast, ⟨rfl, Or.inl rfl⟩, env.scan, by rw [hnow]; exact hload⟩
  · obtain ⟨e', he', hscope, hts, scan, hdata⟩ := hkept
    have hcall : (f.refreshCall env e.call.order).now = e.call.now := hnow.symm
    have httl : (f.refreshCall env e.call.order).ttlSeconds = f.ruleCacheTtlSeconds := rfl
    have hage := CacheEntry.isFresh_iff.mp hfresh
    rw [hcall, httl, ← hts] at hage
    exact ⟨e', he', ⟨hscope, Or.inr hage⟩, scan, by rw [hts]; exact hdata⟩

end CacheLoaded

/-! ## Over all runs -/

namespace Deployment

variable {b : Bootstrap}

/-- Rounds, restarts and commands. All that is promised is that no downgrade
    drops the tables. -/
def anyRun (b : Bootstrap) : Machine Deployment Input :=
  { machine b with
    guard := fun s i => i = .command .downgrade → s.revision ≠ .initial }

/-- The orders that the cycles of a run have handled. -/
def handlings (b : Bootstrap) (hist : List (Deployment × Input)) : List Handling :=
  hist.flatMap fun v =>
    match v.2 with
    | .daemon i => (handledIn b v.1.process i).map (⟨v.1.process.world.db, ·⟩)
    | .command _ => []

/-- A stretch of a run in which no process was started. -/
def OneProcess (life : List (Deployment × Input)) : Prop := ∀ v ∈ life, v.2 ≠ .daemon .restart

/-- What is cached and what was submitted comes from the orders that the
    process, or one before it, has handled. -/
structure Traced (b : Bootstrap) (hist : List (Deployment × Input)) (s : Deployment) : Prop where
  cache : ∃ older life, hist = older ++ life ∧ OneProcess life ∧
    ∀ d, s.process = .running d → CacheLoaded (handlings b life) d.cache
  submissions : ∀ x ∈ s.process.world.submissions, ∃ older life newer,
    hist = older ++ life ++ newer ∧ OneProcess life ∧ x.Prescribed b.facade (handlings b life)

/-- The loop of a cycle on a database with the rules of `db`, after the
    orders `es` of its process. -/
structure TracedLoop (f : EnrichmentFacade) (es : List Handling) (db : Database)
    (old : List Submission) (s : LoopState) : Prop where
  table : s.world.db.rules = db.rules
  cache : CacheLoaded (es ++ s.handled.map (⟨db, ·⟩)) s.cache
  submissions : ∀ x ∈ s.world.submissions, x ∈ old ∨
    x.Prescribed f (es ++ s.handled.map (⟨db, ·⟩))

theorem TracedLoop.handleOrder {f : EnrichmentFacade} {es : List Handling} {db : Database}
    {old : List Submission} {env : OrderEnv} {order : ExternalOrder} {s s' : LoopState}
    (h : TracedLoop f es db old s) (hstep : f.handleOrder env order s = .ok s') :
    TracedLoop f es db old s' := by
  obtain ⟨rules, hrefresh, hworld, _, hhandled⟩ := EnrichmentFacade.handleOrder_ok hstep
  -- the orders so far, and this one after them
  let e : Handling := ⟨db, env.processCall order rules,
    ((env.processCall order rules).execute f.process s.world).1⟩
  have hall : es ++ s'.handled.map (⟨db, ·⟩) = es ++ s.handled.map (⟨db, ·⟩) ++ [e] := by
    rw [hhandled, List.map_append, List.append_assoc]
    rfl
  obtain ⟨hcache, e', he', hreuse, scan, hrules⟩ := h.cache.refresh (e := e) h.table rfl hrefresh
  obtain ⟨ss, hsubs, _, hss⟩ := (env.processCall order rules).execute_submissions f.process s.world
  refine ⟨?_, ?_, ?_⟩
  · rw [hworld, ProcessCall.rules_execute]
    exact h.table
  · rw [hall]
    exact hcache
  · intro x hx
    rw [hworld, hsubs] at hx
    rw [hall]
    rcases List.mem_append.mp hx with hx | hx
    · exact (h.submissions x hx).imp_right fun hx => hx.append [e]
    · exact Or.inr ⟨_, e, [], rfl, e', he', hreuse, prescribedBy_of_listAt (hss x hx) hrules⟩

theorem TracedLoop.cycleEnd {f : EnrichmentFacade} {es : List Handling} {d : Daemon}
    (hcache : CacheLoaded es d.cache) (c : Cycle) :
    TracedLoop f es d.world.db d.world.submissions (cycleEnd f d c) := by
  refine EnrichmentFacade.runOnce_induction (I := TracedLoop f es d.world.db d.world.submissions)
    ⟨rfl, ?_, fun _ hx => Or.inl hx⟩ fun _ _ _ _ _ _ _ h hstep => h.handleOrder hstep
  show CacheLoaded (es ++ []) d.cache
  rwa [List.append_nil]

namespace Traced

variable {hist : List (Deployment × Input)} {s : Deployment}

/-- The submissions of the steps before stay traced. -/
theorem submissions_append (h : Traced b hist s) (v : Deployment × Input) :
    ∀ x ∈ s.process.world.submissions, ∃ older life newer,
      hist ++ [v] = older ++ life ++ newer ∧ OneProcess life ∧
        x.Prescribed b.facade (handlings b life) := by
  intro x hx
  obtain ⟨older, life, newer, rfl, hrest⟩ := h.submissions x hx
  exact ⟨older, life, newer ++ [v], List.append_assoc _ _ _, hrest⟩

theorem handlings_append (hist : List (Deployment × Input)) (v : Deployment × Input) :
    handlings b (hist ++ [v]) = handlings b hist ++ handlings b [v] := List.flatMap_append

theorem oneProcess_append {life : List (Deployment × Input)} {v : Deployment × Input}
    (h : OneProcess life) (hv : v.2 ≠ .daemon .restart) : OneProcess (life ++ [v]) := by
  intro w hw
  rcases List.mem_append.mp hw with hw | hw
  · exact h w hw
  · rw [List.mem_singleton.mp hw]
    exact hv

theorem preserve_round (h : Traced b hist s) (r : Round) :
    Traced b (hist ++ [(s, .daemon (.round r))]) (s.step b (.daemon (.round r))) := by
  have hold := h.submissions_append (s, .daemon (.round r))
  obtain ⟨older, life, rfl, hlife, hcache⟩ := h.cache
  have hlife' : OneProcess (life ++ [(s, .daemon (.round r))]) :=
    oneProcess_append hlife fun heq => by cases heq
  obtain ⟨p, handled, revision, time⟩ := s
  match p with
  | .stopped e w =>
    exact ⟨⟨older, _, List.append_assoc _ _ _, hlife', fun d' hd' => by cases hd'⟩, hold⟩
  | .running d =>
    have hloop : TracedLoop b.facade (handlings b life) d.world.db d.world.submissions
        (cycleEnd b.facade d r.cycle) := .cycleEnd (hcache d rfl) r.cycle
    have hes : handlings b (life ++ [(⟨.running d, handled, revision, time⟩, .daemon (.round r))]) =
        handlings b life ++ (cycleEnd b.facade d r.cycle).handled.map (⟨d.world.db, ·⟩) := by
      rw [handlings_append]
      exact congrArg _ (List.append_nil _)
    obtain ⟨_, _, hsubs, hend⟩ := round_cycleEnd b r d
    refine ⟨⟨older, _, List.append_assoc _ _ _, hlife', ?_⟩, ?_⟩
    · intro d' hrun
      obtain ⟨d₀, hd₀, hres⟩ := (round_running (p := .running d)).mp hrun
      cases hd₀
      rw [hres] at hend
      rw [hend, hes]
      exact hloop.cache
    · intro x hx
      have hx' : x ∈ (DaemonProcess.round b r (.running d)).world.submissions := hx
      rw [world_round, hsubs] at hx'
      rcases hloop.submissions x hx' with hx | hx
      · exact hold x hx
      · refine ⟨older, _, [], ?_, hlife', ?_⟩
        · rw [List.append_nil, List.append_assoc]
        · rw [hes]
          exact hx

theorem preserve_step (h : Traced b hist s) (i : Input) :
    Traced b (hist ++ [(s, i)]) (s.step b i) := by
  match i with
  | .daemon (.round r) => exact h.preserve_round r
  | .daemon .restart =>
    refine ⟨⟨_, [], (List.append_nil _).symm, fun _ hv => absurd hv List.not_mem_nil, ?_⟩,
      h.submissions_append _⟩
    rintro d' ⟨⟩
    exact .empty
  | .command cmd =>
    have hold := h.submissions_append (s, .command cmd)
    obtain ⟨older, life, rfl, hlife, hcache⟩ := h.cache
    have hlife' : OneProcess (life ++ [(s, .command cmd)]) :=
      oneProcess_append hlife fun heq => by cases heq
    refine ⟨⟨older, _, List.append_assoc _ _ _, hlife', ?_⟩, ?_⟩
    · intro d' hd'
      obtain ⟨d, hd, rfl⟩ := withDb_running hd'
      rw [handlings_append]
      exact (hcache d hd).append _
    · have hsubs : (s.step b (.command cmd)).process.world.submissions =
          s.process.world.submissions := by
        show (s.process.withDb _).world.submissions = _
        rw [world_withDb]
      rw [hsubs]
      exact hold

end Traced

/-- **What is submitted is what the rules prescribe.** Over all lifetimes of
    the daemon, each of which ends between rounds or by an exception,
    whatever fails and whichever commands are run between its rounds: a
    submission is that of an order which a cycle has handled, under the id
    of this call. Its rules were queried for this order, or for an order
    with the same codes that the same process handled before it and not
    longer ago than the cache keeps its entries. Its body names exactly the
    rules that the table of that time has for the order, in ascending
    priority, and there is at least one; they are active, meant for the
    codes of the order, and valid, by the instants when the table was
    queried and by UTC when the order was handled, and their conditions hold
    on it. Its fields are those of these rules, and the last rule with a
    field determines it. -/
theorem submissions_prescribed (b : Bootstrap)
    {rules : KeyedTable.Table EnrichmentRule EnrichmentRule.ruleId} {revision : Revision}
    {time : Int} {is : List Input}
    (hl : (anyRun b).Legal ⟨.start (World.fresh rules), [], revision, time⟩ is) :
    let s₀ : Deployment := ⟨.start (World.fresh rules), [], revision, time⟩
    ∀ x ∈ ((anyRun b).run s₀ is).process.world.submissions, ∃ older life newer,
      (anyRun b).visits s₀ is = older ++ life ++ newer ∧ OneProcess life ∧
        x.Prescribed b.facade (handlings b life) := by
  intro s₀ x hx
  have hstart : Traced b [] s₀ := by
    refine ⟨⟨[], [], rfl, ?_, ?_⟩, fun x hx => absurd hx List.not_mem_nil⟩
    · exact fun _ hv => absurd hv List.not_mem_nil
    · intro d hd
      cases hd
      exact .empty
  have htraced : Traced b ((anyRun b).visits s₀ is) ((anyRun b).run s₀ is) :=
    (anyRun b).history_induction (I := Traced b) (fun _ _ i h _ => h.preserve_step i) hstart hl
  exact htraced.submissions x hx

end Deployment

namespace Sample

theorem legal_operated : (Deployment.anyRun bootstrap).Legal
    ⟨.start (World.fresh .empty), [], .initial, 0⟩ operated := by
  refine Machine.legal_of_forall _ ?_ _
  unfold operated
  intro i hi s heq
  subst heq
  simp at hi

end Sample

/-- Of the two submissions of the round, the accepted one. -/
theorem Deployment.submissions_prescribed_seeded :
    ∃ x ∈ Sample.deployment.process.world.submissions, x.accepted = true ∧
      ∃ older life newer,
        (anyRun Sample.bootstrap).visits ⟨.start (World.fresh .empty), [], .initial, 0⟩
          Sample.operated = older ++ life ++ newer ∧ OneProcess life ∧
        x.Prescribed Sample.bootstrap.facade (handlings Sample.bootstrap life) := by
  have hsome : ∃ x ∈ Sample.deployment.process.world.submissions, x.accepted = true := by
    decide +kernel
  obtain ⟨x, hx, haccepted⟩ := hsome
  exact ⟨x, hx, haccepted, submissions_prescribed Sample.bootstrap Sample.legal_operated x hx⟩

end RulesEnrichment
