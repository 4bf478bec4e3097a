import RulesEnrichment.Lib.Machine
import RulesEnrichment.Model.Facade
import RulesEnrichment.ProcessStep

/-! # Cached rules

    The cache keeps what the query returned when it ran, which was filtered
    by validity at that time. Evaluation tests validity again, so rules
    that have expired since are dropped; rules that have become valid since
    are missing. `cached_decides_like_fresh` says that this is the only
    difference. -/

namespace RulesEnrichment

open StepMachine StableSort UnitOfWork

/-! ## Validity, once more -/

theorem asUtcInstant_eq {d : DateTime} {i : Int} (h : d.asUtcInstant = .ok i) : i = d.instant := by
  unfold DateTime.asUtcInstant at h
  split at h
  · cases h
    rfl
  · split at h
    · cases h
      rfl
    · cases h

theorem optionalUtc_eq {d : Option DateTime} {i : Option Int} (h : optionalUtc d = .ok i) :
    i = d.map DateTime.instant := by
  cases d with
  | none => cases h; rfl
  | some d =>
    unfold optionalUtc at h
    cases hd : d.asUtcInstant with
    | error e => simp [hd, Except.map] at h
    | ok j =>
      simp only [hd, Except.map, Except.ok.injEq] at h
      rw [← h, asUtcInstant_eq hd]
      rfl

theorem windowFilter_eq (now : DateTime) (rule : EnrichmentRule) :
    EnrichmentRuleRepository.windowFilter now rule =
      (!beforeBound now.instant (rule.validFrom.map DateTime.instant) &&
        !afterBound now.instant (rule.validTo.map DateTime.instant)) := by
  unfold EnrichmentRuleRepository.windowFilter
  congr 1
  · cases rule.validFrom with
    | none => rfl
    | some f =>
      rw [Bool.eq_iff_iff]
      simp only [Option.map_some, beforeBound, Bool.not_eq_true', decide_eq_true_eq,
        decide_eq_false_iff_not, DateTime.le_def, not_lt]
  · cases rule.validTo with
    | none => rfl
    | some t =>
      rw [Bool.eq_iff_iff]
      simp only [Option.map_some, afterBound, Bool.not_eq_true', decide_eq_true_eq,
        decide_eq_false_iff_not, DateTime.le_def, not_lt]

/-- The evaluator's test, where it does not raise, is that of the query. -/
theorem isValidAt_eq {rule : EnrichmentRule} {now : DateTime} {b : Bool}
    (h : rule.isValidAt now = .ok b) :
    b = (rule.isActive && EnrichmentRuleRepository.windowFilter now rule) := by
  unfold EnrichmentRule.isValidAt at h
  cases hnow : now.asUtcInstant with
  | error e => simp [hnow] at h
  | ok nowUtc =>
    cases hfrom : optionalUtc rule.validFrom with
    | error e => simp [hnow, hfrom] at h
    | ok validFromUtc =>
      cases hto : optionalUtc rule.validTo with
      | error e => simp [hnow, hfrom, hto] at h
      | ok validToUtc =>
        have hn := asUtcInstant_eq hnow
        have hf := optionalUtc_eq hfrom
        have ht := optionalUtc_eq hto
        subst hn hf ht
        simp only [hnow, hfrom, hto] at h
        rw [windowFilter_eq]
        cases hb : beforeBound now.instant (rule.validFrom.map DateTime.instant) with
        | true => simpa [hb] using h.symm
        | false =>
          cases ha : afterBound now.instant (rule.validTo.map DateTime.instant) with
          | true => simpa [hb, ha] using h.symm
          | false => simpa [hb, ha] using h.symm

/-! ## What the cache holds -/

/-- The cache, and the `now` of the latest call. -/
structure CacheState where
  cache : RulesCache
  clock : Option DateTime

namespace RefreshRules

/-- Calls of `RefreshRulesCacheUseCase.execute` on a table that does not
    change, the clock not running backwards, the rows always being met in
    one order. -/
def machine (db : Database) (scan : ScanOrder EnrichmentRule) : Machine CacheState RefreshCall where
  init s := s = ⟨.empty, none⟩
  guard s r := r.scan = scan ∧ ∀ t, s.clock = some t → t ≤ r.now
  step s r := ⟨(refreshRules r db s.cache).2, some r.now⟩

/-- When the rules were loaded that the call returns. -/
def loadedAt (r : RefreshCall) (cache : RulesCache) : DateTime :=
  match (cache r.key).filter (·.isFresh r) with
  | some e => e.ts
  | none => r.now

/-- What `list_active_rules` returns at `t` for the key. -/
def listAt (db : Database) (scan : ScanOrder EnrichmentRule) (t : DateTime) (key : ScopeKey) :
    List EnrichmentRule :=
  EnrichmentRuleRepository.listActiveRules (Session.enter db) scan t key.clientCode
    key.facilityCode key.zoneCode

/-- A query reads no other table. -/
theorem listAt_congr {db db' : Database} (h : db.rules = db'.rules) (scan : ScanOrder EnrichmentRule)
    (t : DateTime) (key : ScopeKey) : listAt db scan t key = listAt db' scan t key := by
  unfold listAt EnrichmentRuleRepository.listActiveRules
  rw [Session.snapshot_enter, Session.snapshot_enter, h]

/-- Every entry holds what the query returned when it was made, which is
    not later than the latest call. -/
def Loaded (db : Database) (scan : ScanOrder EnrichmentRule) (s : CacheState) : Prop :=
  ∀ key e, s.cache key = some e → e.data = listAt db scan e.ts key ∧
    ∃ t, s.clock = some t ∧ e.ts ≤ t

section

variable {db : Database} {scan : ScanOrder EnrichmentRule}

/-- What a refresh returns was loaded when `loadedAt` says. -/
theorem rules_of_loaded {s : CacheState} {r : RefreshCall} (h : Loaded db scan s)
    (hr : (machine db scan).guard s r) {rules : List EnrichmentRule} {cache' : RulesCache}
    (hok : refreshRules r db s.cache = (.ok rules, cache')) :
    rules = listAt db scan (loadedAt r s.cache) r.key ∧ loadedAt r s.cache ≤ r.now := by
  obtain ⟨hscan, hclock⟩ := hr
  unfold loadedAt
  rcases refreshRules_cases r db s.cache with ⟨e, hf, hres⟩ | ⟨_, _, _, hres⟩ | ⟨hf, _, hres⟩
  · obtain ⟨hkey, _⟩ := Option.filter_eq_some_iff.mp hf
    obtain ⟨hdata, t, ht, hle⟩ := h r.key e hkey
    cases hok.symm.trans hres
    rw [hf]
    exact ⟨hdata, le_trans hle (hclock t ht)⟩
  · cases hok.symm.trans hres
  · cases hok.symm.trans hres
    rw [hf]
    refine ⟨?_, le_refl _⟩
    unfold RefreshCall.load listAt
    rw [hscan]

theorem Loaded.preserve {s : CacheState} {r : RefreshCall} (h : Loaded db scan s)
    (hr : (machine db scan).guard s r) : Loaded db scan ((machine db scan).step s r) := by
  -- the old entries are not later than `now` either
  have hold : ∀ key e, s.cache key = some e → e.data = listAt db scan e.ts key ∧
      ∃ t, some r.now = some t ∧ e.ts ≤ t := by
    intro key e he
    obtain ⟨hdata, t, ht, hle⟩ := h key e he
    exact ⟨hdata, r.now, rfl, le_trans hle (hr.2 t ht)⟩
  intro key e he
  have he : (refreshRules r db s.cache).2 key = some e := he
  rcases refreshRules_cases r db s.cache with ⟨_, _, hres⟩ | ⟨_, _, _, hres⟩ | ⟨_, _, hres⟩
  · rw [hres] at he
    exact hold key e he
  · rw [hres] at he
    exact hold key e he
  · rw [hres] at he
    have he : Function.update s.cache r.key (some ⟨r.now, r.load db⟩) key = some e := he
    by_cases hk : key = r.key
    · -- the new entry
      subst hk
      rw [Function.update_self] at he
      cases he
      refine ⟨?_, r.now, rfl, le_refl _⟩
      show r.load db = _
      unfold RefreshCall.load listAt
      rw [hr.1]
    · rw [Function.update_of_ne hk] at he
      exact hold key e he

theorem reachable_loaded {s : CacheState} (hs : (machine db scan).Reachable s) :
    Loaded db scan s := by
  refine Machine.reachable_induction _ (I := Loaded db scan) ?_ (fun _ _ h hr => h.preserve hr) hs
  intro s₀ hinit
  cases hinit
  intro key e he
  cases he

end

/-! ## Old rules and new rules -/

/-- No active rule of the scope has become valid between the two times. -/
def NoneStarts (db : Database) (key : ScopeKey) (t now : DateTime) : Prop :=
  ∀ rule ∈ db.rules.rows, rule.isActive = true →
    EnrichmentRuleRepository.scopeFilter key.clientCode key.facilityCode key.zoneCode rule = true →
    ∀ f, rule.validFrom = some f → ¬ (t < f ∧ f ≤ now)

/-- Converting the times to UTC does not raise. -/
def BoundsConvert (db : Database) (now : DateTime) : Prop :=
  ∀ rule ∈ db.rules.rows, ∃ b, rule.isValidAt now = .ok b

section

variable {db : Database} {scan : ScanOrder EnrichmentRule} {key : ScopeKey} {t now : DateTime}

/-- Of a rule of the scope, the two lists differ only by the window. -/
theorem windowFilter_of_noneStarts (hle : t ≤ now) (h : NoneStarts db key t now)
    {rule : EnrichmentRule} (hin : rule ∈ db.rules.rows) (hactive : rule.isActive = true)
    (hscope : EnrichmentRuleRepository.scopeFilter key.clientCode key.facilityCode key.zoneCode
      rule = true)
    (hnow : EnrichmentRuleRepository.windowFilter now rule = true) :
    EnrichmentRuleRepository.windowFilter t rule = true := by
  unfold EnrichmentRuleRepository.windowFilter at hnow ⊢
  rw [Bool.and_eq_true] at hnow ⊢
  obtain ⟨hfrom, hto⟩ := hnow
  constructor
  · cases hf : rule.validFrom with
    | none => rfl
    | some f =>
      -- it has not started since, so it had started before
      have hno := h rule hin hactive hscope f hf
      simp only [hf, decide_eq_true_eq] at hfrom ⊢
      by_contra hlt
      rcases DateTime.le_total f t with hft | htf
      · exact hlt hft
      · exact hno ⟨lt_of_le_not_ge htf hlt, hfrom⟩
  · cases ht : rule.validTo with
    | none => rfl
    | some e =>
      simp only [ht, decide_eq_true_eq] at hto ⊢
      exact le_trans hle hto

/-- The rules that are valid now are listed by both. -/
theorem filter_listAt (hle : t ≤ now) (h : NoneStarts db key t now) {p : EnrichmentRule → Bool}
    (hp : ∀ rule, p rule = true → EnrichmentRuleRepository.windowFilter now rule = true) :
    (listAt db scan t key).filter p = (listAt db scan now key).filter p := by
  unfold listAt EnrichmentRuleRepository.listActiveRules
  rw [filter_sortBy, filter_sortBy, List.filter_filter, List.filter_filter]
  refine congrArg (sortBy EnrichmentRule.priority) (List.filter_congr ?_)
  intro rule hrule
  have hin : rule ∈ db.rules.rows := (scan.perm _).mem_iff.mp hrule
  rw [Bool.eq_iff_iff]
  simp only [Bool.and_eq_true]
  constructor
  · intro hall
    obtain ⟨hprule, ⟨hactive, _⟩, hscope⟩ := hall
    exact ⟨hprule, ⟨hactive, hp rule hprule⟩, hscope⟩
  · intro hall
    obtain ⟨hprule, ⟨hactive, hnow⟩, hscope⟩ := hall
    exact ⟨hprule, ⟨hactive, windowFilter_of_noneStarts hle h hin hactive hscope hnow⟩, hscope⟩

/-- What the query returns now, the cache has. -/
theorem mem_listAt_of_now (hle : t ≤ now) (h : NoneStarts db key t now) {rule : EnrichmentRule}
    (hrule : rule ∈ listAt db scan now key) : rule ∈ listAt db scan t key := by
  obtain ⟨hin, hactive, hwindow, hscope⟩ := EnrichmentRuleRepository.mem_listActiveRules.mp hrule
  exact EnrichmentRuleRepository.mem_listActiveRules.mpr
    ⟨hin, hactive, windowFilter_of_noneStarts hle h hin hactive hscope hwindow, hscope⟩

variable {rt : Runtime} {order : ExternalOrder}

/-- An evaluation of the old rules that returns gives the decision of the
    new ones. -/
theorem evaluate_of_old (hle : t ≤ now) (h : NoneStarts db key t now) {d : EnrichmentDecision}
    (heval : evaluate rt order (listAt db scan t key) now = .ok d) :
    evaluate rt order (listAt db scan now key) now = .ok d := by
  obtain ⟨hall, rfl⟩ := evaluate_eq_ok_iff.mp heval
  refine evaluate_eq_ok_iff.mpr ⟨fun rule hrule => hall rule (mem_listAt_of_now hle h hrule), ?_⟩
  have happlies : ∀ rule : EnrichmentRule, rule.applies rt order now = true →
      EnrichmentRuleRepository.windowFilter now rule = true := by
    intro rule happ
    have hvalid := isValidAt_eq (EnrichmentRule.applies_iff.mp happ).1
    rw [eq_comm, Bool.and_eq_true] at hvalid
    exact hvalid.2
  unfold matchingRules
  rw [filter_listAt hle h happlies]

theorem evaluate_of_convert (hle : t ≤ now) (h : NoneStarts db key t now)
    (hconv : BoundsConvert db now) :
    evaluate rt order (listAt db scan t key) now =
      evaluate rt order (listAt db scan now key) now := by
  have hvalid : ∀ s : DateTime, ∀ rule ∈ listAt db scan s key, ∃ b, rule.isValidAt now = .ok b :=
    fun s rule hrule => hconv rule (EnrichmentRuleRepository.mem_listActiveRules.mp hrule).1
  have hwindow : ∀ rule : EnrichmentRule, decide (rule.isValidAt now = .ok true) = true →
      EnrichmentRuleRepository.windowFilter now rule = true := by
    intro rule hrule
    have hvalid := isValidAt_eq (of_decide_eq_true hrule)
    rw [eq_comm, Bool.and_eq_true] at hvalid
    exact hvalid.2
  unfold evaluate
  rw [validRules_of_all (hvalid t), validRules_of_all (hvalid now), filter_listAt hle h hwindow]

end

/-- **The cache.** On a table that does not change, in every run of
    refreshes: if no active rule of the scope has become valid since the
    returned rules were loaded, evaluating them gives the decision that
    the rules of the table give now. -/
theorem cached_decides_like_fresh (db : Database) (scan : ScanOrder EnrichmentRule) (rt : Runtime)
    (order : ExternalOrder) {s : CacheState} (hs : (machine db scan).Reachable s) {r : RefreshCall}
    (hr : (machine db scan).guard s r) {rules : List EnrichmentRule} {cache' : RulesCache}
    (hok : refreshRules r db s.cache = (.ok rules, cache'))
    (hnone : NoneStarts db r.key (loadedAt r s.cache) r.now) :
    (∀ d, evaluate rt order rules r.now = .ok d →
        evaluate rt order (listAt db scan r.now r.key) r.now = .ok d) ∧
      (BoundsConvert db r.now → evaluate rt order rules r.now =
        evaluate rt order (listAt db scan r.now r.key) r.now) := by
  obtain ⟨hrules, hle⟩ := rules_of_loaded (reachable_loaded hs) hr hok
  subst hrules
  exact ⟨fun d heval => evaluate_of_old hle hnone heval, evaluate_of_convert hle hnone⟩

/-! ### A rule that starts while its list is cached

    Nothing is listed at nine; the rule starts at ten; at eleven the empty
    list is two hours old, which the ttl admits. -/

def startingRule : EnrichmentRule := { Sample.rule "R1" "ES01" with validFrom := some Sample.ten }

def startingDb : Database := Database.fresh ⟨[startingRule], by decide⟩

def refreshAt (now : DateTime) : RefreshCall where
  now := now
  ttlSeconds := 7200
  key := ⟨some "DHL", some "FC-MIL-01", none⟩
  scan := .physical
  fault := none

def afterNine (db : Database) : CacheState :=
  (machine db .physical).run ⟨.empty, none⟩ [refreshAt Sample.nine]

theorem reachable_afterNine (db : Database) : (machine db .physical).Reachable (afterNine db) := by
  refine ⟨_, [refreshAt Sample.nine], rfl, ?_, rfl⟩
  intro p hp
  rw [List.mem_singleton.mp hp]
  exact ⟨rfl, nofun⟩

theorem guard_afterNine (db : Database) (now : DateTime) (h : Sample.nine ≤ now) :
    (machine db .physical).guard (afterNine db) (refreshAt now) := by
  refine ⟨rfl, ?_⟩
  intro t ht
  cases ht
  exact h

theorem cached_rules_miss_a_start :
    (machine startingDb .physical).Reachable (afterNine startingDb) ∧
    (machine startingDb .physical).guard (afterNine startingDb) (refreshAt Sample.eleven) ∧
    ∃ rules d d', (refreshRules (refreshAt Sample.eleven) startingDb (afterNine startingDb).cache).1 =
        .ok rules ∧
      evaluate Sample.runtime (Sample.order "ORD-1" Sample.nine) rules Sample.eleven = .ok d ∧
      evaluate Sample.runtime (Sample.order "ORD-1" Sample.nine)
        (listAt startingDb .physical Sample.eleven (refreshAt Sample.eleven).key) Sample.eleven =
          .ok d' ∧
      d.matchedRules = [] ∧ d'.matchedRules = ["R1"] :=
  ⟨reachable_afterNine _, guard_afterNine _ _ (by decide), _, _, _, rfl, rfl, rfl, rfl, rfl⟩

/-! ### A rule that ends while its list is cached

    Both rules are listed at nine, and the second one ends at ten: at
    eleven the cache still lists it, and the evaluation drops it. -/

def endingRule : EnrichmentRule := { Sample.rule "R2" "ES02" with validTo := some Sample.ten }

def endingDb : Database := Database.fresh ⟨[Sample.rule "R1" "ES01", endingRule], by decide⟩

theorem cached_decides_like_fresh_sample :
    let r := refreshAt Sample.eleven
    let rules := [Sample.rule "R1" "ES01", endingRule]
    (∀ d, evaluate Sample.runtime (Sample.order "ORD-1" Sample.nine) rules r.now = .ok d →
        evaluate Sample.runtime (Sample.order "ORD-1" Sample.nine)
          (listAt endingDb .physical r.now r.key) r.now = .ok d) ∧
      (BoundsConvert endingDb r.now →
        evaluate Sample.runtime (Sample.order "ORD-1" Sample.nine) rules r.now =
          evaluate Sample.runtime (Sample.order "ORD-1" Sample.nine)
            (listAt endingDb .physical r.now r.key) r.now) := by
  intro r rules
  have hok : refreshRules (refreshAt Sample.eleven) endingDb (afterNine endingDb).cache =
      (.ok [Sample.rule "R1" "ES01", endingRule], (afterNine endingDb).cache) := rfl
  refine cached_decides_like_fresh endingDb .physical Sample.runtime _ (reachable_afterNine _)
    (guard_afterNine _ _ (by decide)) hok ?_
  intro rule hrule _ _ f hf
  have hall : ∀ rule ∈ endingDb.rules.rows, rule.validFrom = none := by decide
  rw [hall rule hrule] at hf
  exact absurd hf.symm (Option.some_ne_none f)

end RefreshRules

end RulesEnrichment
