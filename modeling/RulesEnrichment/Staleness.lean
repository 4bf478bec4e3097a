import RulesEnrichment.Cache

/-! # How old cached rules can be

    `RefreshRulesCacheUseCase.execute` on a database that changes in any
    way between its calls. The cache of the use case is the history of its
    loads, cut down to the last one of every key (`Recorded`), so what a
    call returns was loaded under its own key, on the table as it was
    then, and not longer ago than the ttl of the call. -/

namespace RulesEnrichment

open StepMachine

/-! ## Ages

    `total_seconds()` rounds, and from 2³⁴ seconds on a microsecond is less
    than half of the last bit. -/

/-- Against fewer seconds the rounded age compares as the age does. -/
theorem totalSeconds_le_iff {micros ttl : Int} (h : ttl.natAbs < 2 ^ 34) :
    (totalSeconds micros).value ≤ ttl ↔ micros ≤ ttl * 1000000 :=
  Binary64.ofRatio_le_iff (by decide) (by decide : 1000000 < 2 ^ (19 + 1)) (by omega)

theorem totalSeconds_zero_le {ttl : Int} (h : 0 ≤ ttl) : (totalSeconds 0).value ≤ ttl := by
  have hzero : (totalSeconds 0).value ≤ (0 : Int) := (totalSeconds_le_iff (by decide)).mpr le_rfl
  exact le_trans hzero (by exact_mod_cast h)

theorem CacheEntry.isFresh_iff {e : CacheEntry} {r : RefreshCall} :
    e.isFresh r = true ↔ (totalSeconds (r.now.instant - e.ts.instant)).value ≤ r.ttlSeconds :=
  Binary64.leInt_iff

/-! ## Refreshes on a changing table -/

/-- The database, the cache, and the `now` of the latest call. -/
structure CachedRules where
  db : Database
  cache : RulesCache
  clock : Option DateTime

namespace CachedRules

inductive Input where
  | refresh (r : RefreshCall)
  /-- Somebody writes to the database. -/
  | change (db : Database)

/-- Whether the call asks the database, and gets an answer. -/
def asks (r : RefreshCall) (cache : RulesCache) : Bool :=
  ((cache r.key).filter (·.isFresh r)).isNone && r.fault.isNone

/-- Calls with any keys and ttls, `now` not running backwards, and changes
    of the database between them. -/
def machine : Machine CachedRules Input where
  init s := s.cache = .empty ∧ s.clock = none
  guard s i :=
    match i with
    | .refresh r => 0 ≤ r.ttlSeconds ∧ ∀ t, s.clock = some t → t ≤ r.now
    | .change _ => True
  step s i :=
    match i with
    | .refresh r => ⟨s.db, (refreshRules r s.db s.cache).2, some r.now⟩
    | .change db => { s with db := db }

/-! ## The loads of a run -/

/-- A query that was run: the table it met and the call that asked. -/
structure Load where
  db : Database
  call : RefreshCall

/-- What `list_active_rules` returned. -/
def Load.rules (l : Load) : List EnrichmentRule := l.call.load l.db

/-- What the cache keeps of a load. -/
def Load.entry (l : Load) : CacheEntry := ⟨l.call.now, l.rules⟩

def loadOf (p : CachedRules × Input) : Option Load :=
  match p.2 with
  | .refresh r => if asks r p.1.cache then some ⟨p.1.db, r⟩ else none
  | .change _ => none

/-- The loads among the steps of a run, in their order. -/
def loadsOf (hist : List (CachedRules × Input)) : List Load := hist.filterMap loadOf

/-- The last load of a key. -/
def lastLoad (key : ScopeKey) (hist : List (CachedRules × Input)) : Option Load :=
  ((loadsOf hist).filter fun l => l.call.key = key).getLast?

theorem mem_of_lastLoad {key : ScopeKey} {hist : List (CachedRules × Input)} {l : Load}
    (h : lastLoad key hist = some l) : l ∈ loadsOf hist ∧ l.call.key = key := by
  have hmem := List.mem_of_getLast? h
  rw [List.mem_filter, decide_eq_true_eq] at hmem
  exact hmem

theorem loadsOf_append_singleton (hist : List (CachedRules × Input)) (p : CachedRules × Input) :
    loadsOf (hist ++ [p]) = loadsOf hist ++ (loadOf p).toList := by
  unfold loadsOf
  rw [List.filterMap_append]
  rcases h : loadOf p with _ | l <;> simp [h]

/-- A step that loads nothing leaves the last loads as they were. -/
theorem lastLoad_of_no_load {p : CachedRules × Input} (h : loadOf p = none) (key : ScopeKey)
    (hist : List (CachedRules × Input)) : lastLoad key (hist ++ [p]) = lastLoad key hist := by
  unfold lastLoad
  rw [loadsOf_append_singleton, h, Option.toList_none, List.append_nil]

/-- A load is the last one of its key, and of no other. -/
theorem lastLoad_of_load {p : CachedRules × Input} {l : Load} (h : loadOf p = some l)
    (key : ScopeKey) (hist : List (CachedRules × Input)) :
    lastLoad key (hist ++ [p]) = if l.call.key = key then some l else lastLoad key hist := by
  unfold lastLoad
  rw [loadsOf_append_singleton, h, Option.toList_some, List.filter_append]
  by_cases hk : l.call.key = key <;> simp [hk]

/-! ## The cache is its last loads -/

/-- Under every key the cache has the last load of this key; no load is
    later than the latest call. -/
structure Recorded (hist : List (CachedRules × Input)) (s : CachedRules) : Prop where
  cache : ∀ key, s.cache key = (lastLoad key hist).map Load.entry
  times : ∀ l ∈ loadsOf hist, ∃ t, s.clock = some t ∧ l.call.now ≤ t

/-- A call that does not ask leaves the cache alone. -/
theorem cache_of_not_asks {r : RefreshCall} {db : Database} {cache : RulesCache}
    (h : asks r cache = false) : (refreshRules r db cache).2 = cache := by
  rcases refreshRules_cases r db cache with ⟨_, _, hres⟩ | ⟨_, _, _, hres⟩ | ⟨hf, hfault, _⟩
  · rw [hres]
  · rw [hres]
  · simp [asks, hf, hfault] at h

/-- A call that asks returns what it loads, and stores it under its key. -/
theorem refreshRules_of_asks {r : RefreshCall} {db : Database} {cache : RulesCache}
    (h : asks r cache = true) : refreshRules r db cache =
      (.ok (r.load db), Function.update cache r.key (some (Load.entry ⟨db, r⟩))) := by
  rcases refreshRules_cases r db cache with ⟨_, hf, _⟩ | ⟨_, _, hfault, _⟩ | ⟨_, _, hres⟩
  · simp [asks, hf] at h
  · simp [asks, hfault] at h
  · exact hres

/-- A call that does not ask and returns found a fresh entry. -/
theorem rules_of_not_asks {r : RefreshCall} {db : Database} {cache cache' : RulesCache}
    {rules : List EnrichmentRule} (h : asks r cache = false)
    (hok : refreshRules r db cache = (.ok rules, cache')) :
    ∃ e, cache r.key = some e ∧ e.isFresh r = true ∧ rules = e.data := by
  rcases refreshRules_cases r db cache with ⟨e, hf, hres⟩ | ⟨_, _, _, hres⟩ | ⟨hf, hfault, _⟩
  · obtain ⟨hkey, hfresh⟩ := Option.filter_eq_some_iff.mp hf
    cases hok.symm.trans hres
    exact ⟨e, hkey, hfresh, rfl⟩
  · cases hok.symm.trans hres
  · simp [asks, hf, hfault] at h

/-- The loads up to a legal call are not later than the call. -/
theorem Recorded.times_le {hist : List (CachedRules × Input)} {s : CachedRules} {r : RefreshCall}
    (h : Recorded hist s) (hr : machine.guard s (.refresh r)) :
    ∀ l ∈ loadsOf hist, l.call.now ≤ r.now := by
  intro l hl
  obtain ⟨t, ht, hle⟩ := h.times l hl
  exact le_trans hle (hr.2 t ht)

theorem Recorded.refresh {hist : List (CachedRules × Input)} {s : CachedRules} {r : RefreshCall}
    (h : Recorded hist s) (hr : machine.guard s (.refresh r)) :
    Recorded (hist ++ [(s, .refresh r)]) (machine.step s (.refresh r)) := by
  have hload : loadOf (s, .refresh r) = if asks r s.cache then some ⟨s.db, r⟩ else none := rfl
  rcases hasks : asks r s.cache with _ | _
  · rw [hasks, if_neg Bool.false_ne_true] at hload
    constructor
    · intro key
      show (refreshRules r s.db s.cache).2 key = _
      rw [lastLoad_of_no_load hload, cache_of_not_asks hasks]
      exact h.cache key
    · intro l hl
      rw [loadsOf_append_singleton, hload, Option.toList_none, List.append_nil] at hl
      exact ⟨r.now, rfl, h.times_le hr l hl⟩
  · rw [hasks, if_pos rfl] at hload
    constructor
    · intro key
      show (refreshRules r s.db s.cache).2 key = _
      rw [lastLoad_of_load hload, refreshRules_of_asks hasks]
      show Function.update s.cache r.key _ key = Option.map Load.entry (if r.key = key then _ else _)
      by_cases hk : r.key = key
      · subst hk
        rw [Function.update_self, if_pos rfl]
        rfl
      · -- the entries of the other keys stay
        rw [Function.update_of_ne (Ne.symm hk), if_neg hk]
        exact h.cache key
    · intro l hl
      rw [loadsOf_append_singleton, hload, Option.toList_some] at hl
      rcases List.mem_append.mp hl with hl | hl
      · exact ⟨r.now, rfl, h.times_le hr l hl⟩
      · rw [List.mem_singleton.mp hl]
        exact ⟨r.now, rfl, le_refl _⟩

theorem Recorded.change {hist : List (CachedRules × Input)} {s : CachedRules}
    (h : Recorded hist s) (db : Database) :
    Recorded (hist ++ [(s, .change db)]) (machine.step s (.change db)) := by
  have hload : loadOf (s, .change db) = none := rfl
  constructor
  · intro key
    rw [lastLoad_of_no_load hload]
    exact h.cache key
  · intro l hl
    rw [loadsOf_append_singleton, hload, Option.toList_none, List.append_nil] at hl
    exact h.times l hl

theorem Recorded.preserve {hist : List (CachedRules × Input)} {s : CachedRules} {i : Input}
    (h : Recorded hist s) (hi : machine.guard s i) :
    Recorded (hist ++ [(s, i)]) (machine.step s i) := by
  match i with
  | .refresh r => exact h.refresh hi
  | .change db => exact h.change db

theorem recorded_of_run {s : CachedRules} {is : List Input} (hs : machine.init s)
    (hl : machine.Legal s is) : Recorded (machine.visits s is) (machine.run s is) := by
  have hstart : Recorded [] s := by
    refine ⟨fun key => ?_, fun l hl => absurd hl List.not_mem_nil⟩
    rw [hs.1]
    rfl
  exact machine.history_induction (I := Recorded) (fun _ _ _ h hi => h.preserve hi) hstart hl

/-- **Bounded staleness.** In every run of refreshes and of changes of the
    database, what a call returns is what the query returned in the last
    load of the same key (this very call's, if it asked), on the table as
    it was then. The age of that load, in seconds and rounded to a float,
    is not above the ttl of the call; below 2³⁴ seconds, nor is the age. -/
theorem bounded_staleness {s : CachedRules} {is : List Input} {r : RefreshCall}
    (hs : machine.init s) (hl : machine.Legal s (is ++ [.refresh r]))
    {rules : List EnrichmentRule} {cache' : RulesCache}
    (hok : refreshRules r (machine.run s is).db (machine.run s is).cache = (.ok rules, cache')) :
    ∃ l, lastLoad r.key (machine.visits s (is ++ [.refresh r])) = some l ∧
      l.call.key = r.key ∧ rules = l.rules ∧
      0 ≤ r.now.instant - l.call.now.instant ∧
      (totalSeconds (r.now.instant - l.call.now.instant)).value ≤ r.ttlSeconds ∧
      (r.ttlSeconds < 2 ^ 34 →
        r.now.instant - l.call.now.instant ≤ r.ttlSeconds * 1000000) := by
  obtain ⟨hlis, hlr⟩ := (machine.legal_append s is [.refresh r]).mp hl
  have hr : machine.guard (machine.run s is) (.refresh r) :=
    hlr (machine.run s is, .refresh r) List.mem_cons_self
  have hrec := recorded_of_run hs hlis
  have httl := hr.1
  have hexact : ∀ micros : Int, (totalSeconds micros).value ≤ r.ttlSeconds →
      r.ttlSeconds < 2 ^ 34 → micros ≤ r.ttlSeconds * 1000000 :=
    fun _ hage hbound => (totalSeconds_le_iff (by omega)).mp hage
  -- the history ends with this call
  rw [machine.visits_append]
  show ∃ l, lastLoad r.key (machine.visits s is ++ [(machine.run s is, .refresh r)]) = some l ∧ _
  have hload : loadOf (machine.run s is, .refresh r) =
      if asks r (machine.run s is).cache then some ⟨(machine.run s is).db, r⟩ else none := rfl
  rcases hasks : asks r (machine.run s is).cache with _ | _
  · -- from the cache: the entry is the last load before
    rw [hasks, if_neg Bool.false_ne_true] at hload
    obtain ⟨e, hkey, hfresh, hdata⟩ := rules_of_not_asks hasks hok
    rw [hrec.cache r.key, Option.map_eq_some_iff] at hkey
    obtain ⟨l, hlast, hentry⟩ := hkey
    subst hentry
    obtain ⟨hmem, hcall⟩ := mem_of_lastLoad hlast
    have hle := hrec.times_le hr l hmem
    have hage := CacheEntry.isFresh_iff.mp hfresh
    rw [lastLoad_of_no_load hload]
    rw [DateTime.le_def] at hle
    exact ⟨l, hlast, hcall, hdata, by omega, hage, hexact _ hage⟩
  · -- from the table: this call is the last load
    rw [hasks, if_pos rfl] at hload
    rw [refreshRules_of_asks hasks] at hok
    have hage : (totalSeconds (r.now.instant - r.now.instant)).value ≤ r.ttlSeconds := by
      rw [sub_self]
      exact totalSeconds_zero_le httl
    rw [lastLoad_of_load hload, if_pos rfl]
    refine ⟨_, rfl, rfl, ?_, ?_, hage, hexact _ hage⟩
    · exact (Except.ok.inj (Prod.mk.inj hok).1).symm
    · show 0 ≤ r.now.instant - r.now.instant
      omega

/-! ### A list that outlives its table

    At nine the rules are loaded, then they are all deleted; at eleven the
    cache still has them, two hours old, which is just the ttl. -/

def loadedAtNine : List Input :=
  [.refresh (RefreshRules.refreshAt Sample.nine), .change (Database.fresh ⟨[], by decide⟩)]

/-- The calls of `loadedAtNine`, with `now` not running backwards after them. -/
theorem legal_loadedAtNine {r : RefreshCall} (httl : 0 ≤ r.ttlSeconds) (hr : Sample.nine ≤ r.now) :
    machine.Legal ⟨Database.fresh Sample.rules, .empty, none⟩ (loadedAtNine ++ [.refresh r]) := by
  intro p hp
  simp only [loadedAtNine, List.cons_append, List.nil_append, Machine.visits_cons,
    Machine.visits_nil, List.mem_cons, List.not_mem_nil, or_false] at hp
  rcases hp with rfl | rfl | rfl
  · refine ⟨by decide, ?_⟩
    intro t ht
    exact absurd ht (Option.some_ne_none t).symm
  · exact trivial
  · refine ⟨httl, ?_⟩
    intro t ht
    cases ht
    exact hr

theorem bounded_staleness_deleted : ∃ l,
    lastLoad (RefreshRules.refreshAt Sample.eleven).key
        (machine.visits ⟨Database.fresh Sample.rules, .empty, none⟩
          (loadedAtNine ++ [.refresh (RefreshRules.refreshAt Sample.eleven)])) = some l ∧
      l.call.key = (RefreshRules.refreshAt Sample.eleven).key ∧ Sample.rules.rows = l.rules ∧
      0 ≤ Sample.eleven.instant - l.call.now.instant ∧
      (totalSeconds (Sample.eleven.instant - l.call.now.instant)).value ≤ (7200 : Int) ∧
      ((7200 : Int) < 2 ^ 34 → Sample.eleven.instant - l.call.now.instant ≤ 7200 * 1000000) := by
  exact bounded_staleness ⟨rfl, rfl⟩ (legal_loadedAtNine (by decide) (by decide))
    (rfl : refreshRules (RefreshRules.refreshAt Sample.eleven)
      (machine.run ⟨Database.fresh Sample.rules, .empty, none⟩ loadedAtNine).db
      (machine.run ⟨Database.fresh Sample.rules, .empty, none⟩ loadedAtNine).cache =
        (.ok Sample.rules.rows,
          (machine.run ⟨Database.fresh Sample.rules, .empty, none⟩ loadedAtNine).cache))

/-! ### An age that rounds to the ttl

    With a ttl of 20000000000 seconds, and one microsecond after that
    many seconds. -/

def refreshLate : RefreshCall where
  now := { year := 2659, month := 12, day := 9, hour := 20, minute := 33, second := 20,
           microsecond := 1 }
  ttlSeconds := 20000000000
  key := ⟨some "DHL", some "FC-MIL-01", none⟩
  scan := .physical
  fault := none

/-- The call returns what the only load returned, which is older than the ttl. -/
theorem cached_beyond_ttl :
    let start : CachedRules := ⟨Database.fresh Sample.rules, .empty, none⟩
    let before := machine.run start loadedAtNine
    machine.init start ∧ machine.Legal start (loadedAtNine ++ [.refresh refreshLate]) ∧
      (refreshRules refreshLate before.db before.cache).1 = .ok Sample.rules.rows ∧
      loadsOf (machine.visits start (loadedAtNine ++ [.refresh refreshLate])) =
        [⟨Database.fresh Sample.rules, RefreshRules.refreshAt Sample.nine⟩] ∧
      refreshLate.ttlSeconds * 1000000 < refreshLate.now.instant - Sample.nine.instant :=
  ⟨⟨rfl, rfl⟩, legal_loadedAtNine (by decide) (by decide), rfl, rfl, by decide⟩

end CachedRules

end RulesEnrichment
