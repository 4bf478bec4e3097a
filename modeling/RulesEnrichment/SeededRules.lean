import RulesEnrichment.ConditionTypes
import RulesEnrichment.Model.Seeds
import RulesEnrichment.Upsert
import RulesEnrichment.WrittenTimes
import Mathlib.Tactic.Ring

/-! # The rules of the repository

    What the migrations and `seed-rules` store is sound: no order makes one
    of their conditions raise (`IsSeeded.wellMade`, `WellMade.sound`). An
    upgrade stores all of its rules or nothing, and a downgrade drops what
    its pattern matches.

    * `migrations_undone_iff`: when they undo one another. -/

namespace RulesEnrichment

open Python KeyedTable UnitOfWork Fallible

/-! ## Dates -/

namespace DateTime

variable {d d' : DateTime}

theorem valid_iff (d : DateTime) : 1 ≤ d.year ∧ d.year ≤ 9999 ∧ 1 ≤ d.month ∧ d.month ≤ 12 ∧
    1 ≤ d.day ∧ d.day ≤ daysInMonth d.year d.month ∧ d.hour < 24 ∧ d.minute < 60 ∧
    d.second < 60 ∧ d.microsecond < 1000000 ∧ (d.utcoffset.getD 0).natAbs < dayMicros :=
  of_decide_eq_true d.valid

/-- The same time of day in the same time zone, on another day. -/
structure SameClock (d d' : DateTime) : Prop where
  hour : d'.hour = d.hour
  minute : d'.minute = d.minute
  second : d'.second = d.second
  microsecond : d'.microsecond = d.microsecond
  utcoffset : d'.utcoffset = d.utcoffset

theorem SameClock.instant (h : SameClock d d') :
    d'.instant = d.instant + ((d'.toordinal : Int) - d.toordinal) * dayMicros := by
  unfold DateTime.instant wallMicros dayMicros
  rw [h.hour, h.minute, h.second, h.microsecond, h.utcoffset]
  omega

theorem december_ends (y : Nat) : daysBeforeMonth y 12 + 31 = daysInYear y := by
  rw [← daysBeforeMonth_thirteen]
  exact (daysBeforeMonth_succ y 12 (by decide)).symm

theorem tomorrow_spec (h : d.tomorrow = some d') :
    SameClock d d' ∧ d'.toordinal = d.toordinal + 1 := by
  obtain ⟨hy, _, hm, hm', hd, hd', _⟩ := d.valid_iff
  unfold tomorrow at h
  simp only at h
  split at h
  · obtain rfl := Option.some.inj h
    exact ⟨⟨rfl, rfl, rfl, rfl, rfl⟩, rfl⟩
  · next hlast =>
    have hday : d.day = daysInMonth d.year d.month := by omega
    split at h
    · obtain rfl := Option.some.inj h
      refine ⟨⟨rfl, rfl, rfl, rfl, rfl⟩, ?_⟩
      show daysBeforeYear d.year + daysBeforeMonth d.year (d.month + 1) + 1 = _
      unfold toordinal
      rw [daysBeforeMonth_succ d.year d.month hm, hday]
      omega
    · next hdecember =>
      have hmonth : d.month = 12 := by omega
      split at h
      · obtain rfl := Option.some.inj h
        refine ⟨⟨rfl, rfl, rfl, rfl, rfl⟩, ?_⟩
        show daysBeforeYear (d.year + 1) + daysBeforeMonth (d.year + 1) 1 + 1 = _
        have hends := december_ends d.year
        unfold toordinal
        rw [daysBeforeYear_succ d.year hy, hday, hmonth]
        show daysBeforeYear d.year + daysInYear d.year + 0 + 1 =
          daysBeforeYear d.year + daysBeforeMonth d.year 12 + 31 + 1
        omega
      · cases h

theorem yesterday_spec (h : d.yesterday = some d') :
    SameClock d d' ∧ d.toordinal = d'.toordinal + 1 := by
  obtain ⟨hy, _, hm, hm', hd, hd', _⟩ := d.valid_iff
  unfold yesterday at h
  simp only at h
  split at h
  · obtain rfl := Option.some.inj h
    refine ⟨⟨rfl, rfl, rfl, rfl, rfl⟩, ?_⟩
    show _ = daysBeforeYear d.year + daysBeforeMonth d.year d.month + (d.day - 1) + 1
    unfold toordinal
    omega
  · next hfirst =>
    have hday : d.day = 1 := by omega
    split at h
    · next hmonth =>
      obtain rfl := Option.some.inj h
      refine ⟨⟨rfl, rfl, rfl, rfl, rfl⟩, ?_⟩
      show _ = daysBeforeYear d.year + daysBeforeMonth d.year (d.month - 1) +
        daysInMonth d.year (d.month - 1) + 1
      have hnext := daysBeforeMonth_succ d.year (d.month - 1) (by omega)
      rw [Nat.sub_add_cancel hm] at hnext
      unfold toordinal
      rw [hnext, hday]
      omega
    · next hjanuary =>
      have hmonth : d.month = 1 := by omega
      split at h
      · next hyear =>
        obtain rfl := Option.some.inj h
        refine ⟨⟨rfl, rfl, rfl, rfl, rfl⟩, ?_⟩
        show _ = daysBeforeYear (d.year - 1) + daysBeforeMonth (d.year - 1) 12 + 31 + 1
        have hnext := daysBeforeYear_succ (d.year - 1) (by omega)
        rw [Nat.sub_add_cancel hy] at hnext
        have hends := december_ends (d.year - 1)
        unfold toordinal
        rw [hnext, hday, hmonth]
        show daysBeforeYear (d.year - 1) + daysInYear (d.year - 1) + 0 + 1 = _
        omega
      · cases h

theorem stepDays_spec {next : DateTime → Option DateTime} {k : Int}
    (hnext : ∀ d d', next d = some d' → d'.utcoffset = d.utcoffset ∧ d'.instant = d.instant + k)
    {n : Nat} (h : stepDays next n d = .ok d') :
    d'.utcoffset = d.utcoffset ∧ d'.instant = d.instant + n * k := by
  induction n generalizing d with
  | zero =>
    obtain rfl := Except.ok.inj h
    exact ⟨rfl, by simp⟩
  | succ n ih =>
    unfold stepDays at h
    cases hstep : next d with
    | none =>
      rw [hstep] at h
      cases h
    | some d₁ =>
      rw [hstep] at h
      obtain ⟨hoffset, hinstant⟩ := hnext d d₁ hstep
      obtain ⟨hoffset', hinstant'⟩ := ih h
      refine ⟨hoffset'.trans hoffset, ?_⟩
      rw [hinstant', hinstant, Nat.cast_succ]
      ring

/-- `timedelta(days=n)` is `n` days of 24 hours, and keeps the time zone. -/
theorem plusDays_spec {n : Nat} (h : d.plusDays n = .ok d') :
    d'.utcoffset = d.utcoffset ∧ d'.instant = d.instant + n * dayMicros := by
  refine stepDays_spec ?_ h
  intro d d' hnext
  obtain ⟨hclock, hordinal⟩ := tomorrow_spec hnext
  refine ⟨hclock.utcoffset, ?_⟩
  rw [hclock.instant, hordinal]
  push_cast
  ring

theorem minusDays_spec {n : Nat} (h : d.minusDays n = .ok d') :
    d'.utcoffset = d.utcoffset ∧ d'.instant = d.instant - n * dayMicros := by
  have hspec : d'.utcoffset = d.utcoffset ∧ d'.instant = d.instant + n * -(dayMicros : Int) := by
    refine stepDays_spec ?_ h
    intro d d' hnext
    obtain ⟨hclock, hordinal⟩ := yesterday_spec hnext
    refine ⟨hclock.utcoffset, ?_⟩
    rw [hclock.instant, hordinal]
    push_cast
    ring
  refine ⟨hspec.1, ?_⟩
  rw [hspec.2]
  ring

theorem toordinal_bounds (d : DateTime) : 1 ≤ d.toordinal ∧ d.toordinal ≤ 3652059 := by
  obtain ⟨hy, hy', _⟩ := d.valid_iff
  obtain ⟨hfirst, hlast⟩ := d.dayOfYear_le
  have hblock := block_le daysBeforeYear_succ hy (Nat.lt_succ_of_le hy')
  have hend : daysBeforeYear (Nat.succ 9999) = 3652059 := by decide
  unfold toordinal
  omega

/-- Only the last date has no next one. -/
theorem tomorrow_eq_none (h : d.tomorrow = none) : d.toordinal = 3652059 := by
  obtain ⟨_, hy, _, hm, _, hd, _⟩ := d.valid_iff
  unfold tomorrow at h
  simp only at h
  split_ifs at h with hday hmonth hyear
  have hyear' : d.year = 9999 := by omega
  have hmonth' : d.month = 12 := by omega
  have hday' : d.day = 31 := by
    have hlast : d.day = daysInMonth d.year d.month := by omega
    rw [hlast, hyear', hmonth']
    rfl
  unfold toordinal
  rw [hyear', hmonth', hday']
  decide

theorem yesterday_eq_none (h : d.yesterday = none) : d.toordinal = 1 := by
  obtain ⟨hy, _, hm, _, hd, _⟩ := d.valid_iff
  unfold yesterday at h
  simp only at h
  split_ifs at h with hday hmonth hyear
  have hyear' : d.year = 1 := by omega
  have hmonth' : d.month = 1 := by omega
  have hday' : d.day = 1 := by omega
  unfold toordinal
  rw [hyear', hmonth', hday']
  decide

/-- The dates of the calendar have the ordinals 1 to 3652059. -/
theorem plusDays_isOk {n : Nat} : (d.plusDays n).isOk = true ↔ d.toordinal + n ≤ 3652059 := by
  unfold plusDays
  induction n generalizing d with
  | zero => exact iff_of_true rfl d.toordinal_bounds.2
  | succ n ih =>
    unfold stepDays
    cases hnext : d.tomorrow with
    | none =>
      have hlast := tomorrow_eq_none hnext
      exact iff_of_false (by simp [Except.isOk, Except.toBool]) (by omega)
    | some d₁ =>
      simp only
      rw [ih, (tomorrow_spec hnext).2]
      omega

theorem minusDays_isOk {n : Nat} : (d.minusDays n).isOk = true ↔ n < d.toordinal := by
  unfold minusDays
  induction n generalizing d with
  | zero => exact iff_of_true rfl d.toordinal_bounds.1
  | succ n ih =>
    unfold stepDays
    cases hnext : d.yesterday with
    | none =>
      have hfirst := yesterday_eq_none hnext
      exact iff_of_false (by simp [Except.isOk, Except.toBool]) (by omega)
    | some d₁ =>
      simp only
      rw [ih, (yesterday_spec hnext).2]
      omega

/-- A timestamp in UTC is converted to UTC. -/
theorem asUtcInstant_utc (h : d.utcoffset = some 0) : d.asUtcInstant = .ok d.instant := by
  obtain ⟨_, _, _, _, _, _, hhour, hminute, hsecond, hmicro, _⟩ := d.valid_iff
  obtain ⟨hfirst, hlast⟩ := d.toordinal_bounds
  unfold asUtcInstant
  rw [h]
  refine if_pos ?_
  unfold instant wallMicros dayMicros
  rw [h, Option.getD_some]
  omega

end DateTime

/-! ## Soundness -/

/-- A rule that the repository writes, at some time in UTC. -/
inductive IsSeeded : EnrichmentRule → Prop
  | baseline {now : DateTime} (hnow : now.utcoffset = some 0) {r : EnrichmentRule}
      (hr : r ∈ baselineRules now) : IsSeeded r
  | migrated {now : DateTime} (hnow : now.utcoffset = some 0) {m : SeedMigration}
      (hm : m = seedBulkRules ∨ m = seedLongtailRules) {i : Nat} {r : EnrichmentRule}
      (hr : m.rule now i = .ok r) : IsSeeded r

theorem wellTyped_bulk (rt : Runtime) (country : String) (weight : PyFloat) :
    WellTyped rt (BulkRules.conditions country weight) = true := rfl

theorem wellTyped_longtail (rt : Runtime) (country : String) {textOp : String}
    (h : textOp ∈ LongtailRules.operations) (volume : PyFloat) :
    WellTyped rt (LongtailRules.conditions country textOp volume) = true := by
  simp only [LongtailRules.operations, List.mem_cons, List.not_mem_nil, or_false] at h
  rcases h with rfl | rfl | rfl <;> rfl

/-- A bound that is there is in UTC. -/
def InUtc (bound : Option DateTime) : Prop := ∀ d, bound = some d → d.utcoffset = some 0

theorem InUtc.optionalUtc {bound : Option DateTime} (h : InUtc bound) :
    ∃ i, optionalUtc bound = .ok i := by
  cases bound with
  | none => exact ⟨none, rfl⟩
  | some d =>
    refine ⟨some d.instant, ?_⟩
    show d.asUtcInstant.map some = _
    rw [DateTime.asUtcInstant_utc (h d rfl)]
    rfl

/-- The conditions pass the check, and the bounds are in UTC. -/
structure EnrichmentRule.WellMade (rt : Runtime) (r : EnrichmentRule) : Prop where
  typed : WellTyped rt r.conditionsJson = true
  validFrom : InUtc r.validFrom
  validTo : InUtc r.validTo

variable {rt : Runtime} {now : DateTime} {i : Nat} {r : EnrichmentRule}

theorem inUtc_minusDays (hnow : now.utcoffset = some 0) {n : Nat} {d : DateTime}
    (h : now.minusDays n = .ok d) : InUtc (some d) := by
  intro d' hd'
  rw [← Option.some.inj hd', (DateTime.minusDays_spec h).1]
  exact hnow

theorem inUtc_none : InUtc none := fun _ h => nomatch h

theorem inUtc_validToOf (hnow : now.utcoffset = some 0) {days : Nat} {ends : Bool}
    {v : Option DateTime} (h : validToOf now days ends = .ok v) : InUtc v := by
  unfold validToOf at h
  cases ends with
  | false =>
    obtain rfl := Except.ok.inj h
    exact inUtc_none
  | true =>
    cases hd : now.plusDays days with
    | error e =>
      rw [hd] at h
      cases h
    | ok d =>
      rw [hd] at h
      obtain rfl := Except.ok.inj h
      intro d' hd'
      rw [← Option.some.inj hd', (DateTime.plusDays_spec hd).1]
      exact hnow

theorem wellMade_bulk (hnow : now.utcoffset = some 0) (h : BulkRules.rule now i = .ok r) :
    r.WellMade rt := by
  obtain ⟨validFrom, hfrom, h⟩ := bind_eq_ok.mp h
  obtain ⟨validTo, hto, h⟩ := bind_eq_ok.mp h
  obtain rfl := Except.ok.inj h
  exact ⟨wellTyped_bulk rt _ _, inUtc_minusDays hnow hfrom, inUtc_validToOf hnow hto⟩

theorem mem_operations (i : Nat) :
    LongtailRules.operations.getD (i % 3) "" ∈ LongtailRules.operations := by
  have hlt : i % 3 < 3 := Nat.mod_lt i (by decide)
  generalize i % 3 = k at hlt
  obtain rfl | rfl | rfl : k = 0 ∨ k = 1 ∨ k = 2 := by omega
  all_goals decide

theorem wellMade_longtail (hnow : now.utcoffset = some 0) (h : LongtailRules.rule now i = .ok r) :
    r.WellMade rt := by
  obtain ⟨validFrom, hfrom, h⟩ := bind_eq_ok.mp h
  obtain ⟨validTo, hto, h⟩ := bind_eq_ok.mp h
  obtain rfl := Except.ok.inj h
  exact ⟨wellTyped_longtail rt _ (mem_operations i) _, inUtc_minusDays hnow hfrom,
    inUtc_validToOf hnow hto⟩

/-- **The rules of the repository** are well made. -/
theorem IsSeeded.wellMade (h : IsSeeded r) (rt : Runtime) : r.WellMade rt := by
  cases h with
  | @baseline now hnow _ hr =>
    have hfrom : InUtc (some now) := fun d hd => by rw [← Option.some.inj hd]; exact hnow
    rcases List.mem_cons.mp hr with rfl | hr
    · exact ⟨rfl, hfrom, inUtc_none⟩
    · rw [List.mem_singleton.mp hr]
      exact ⟨rfl, hfrom, inUtc_none⟩
  | migrated hnow hm hr =>
    rcases hm with rfl | rfl
    · exact wellMade_bulk hnow hr
    · exact wellMade_longtail hnow hr

theorem EnrichmentRule.WellMade.sound (h : r.WellMade rt) : r.Sound rt :=
  ⟨h.typed, h.validFrom.optionalUtc, h.validTo.optionalUtc⟩

/-! ## The ids of a migration -/

/-- The rules of the migration are numbered, and its pattern asks for what
    stands before the numbers. -/
structure SeedMigration.Numbers (m : SeedMigration) (before : String) : Prop where
  pattern : m.pattern = before ++ "%"
  noWildcard : before.toList.any SqlLike.isWildcard = false
  count : m.ruleCount < 100000
  ruleId : ∀ {now i r}, m.rule now i = .ok r → r.ruleId = before ++ DateTime.zfill 5 i

theorem seedBulkRules_numbers : seedBulkRules.Numbers "BULK-RULE-" where
  pattern := by decide
  noWildcard := by decide
  count := by decide
  ruleId h := by
    obtain ⟨_, _, h⟩ := bind_eq_ok.mp h
    obtain ⟨_, _, h⟩ := bind_eq_ok.mp h
    rw [← Except.ok.inj h]

theorem seedLongtailRules_numbers : seedLongtailRules.Numbers "LTAIL-RULE-" where
  pattern := by decide
  noWildcard := by decide
  count := by decide
  ruleId h := by
    obtain ⟨_, _, h⟩ := bind_eq_ok.mp h
    obtain ⟨_, _, h⟩ := bind_eq_ok.mp h
    rw [← Except.ok.inj h]

theorem zfill_inj {width m n : Nat} (hwidth : 0 < width) (hm : m < 10 ^ width)
    (hn : n < 10 ^ width) (h : DateTime.zfill width m = DateTime.zfill width n) : m = n := by
  have hread := IsoFormat.parseDigits_zfill hwidth hm []
  rw [h, IsoFormat.parseDigits_zfill hwidth hn []] at hread
  exact (Prod.mk.inj (Option.some.inj hread)).1.symm

namespace SeedMigration

variable {m : SeedMigration} {before : String}

theorem ruleId_rows (hm : m.Numbers before) {rules : List EnrichmentRule} (h : m.rows now = .ok rules) :
    rules.map EnrichmentRule.ruleId =
      (List.range' 1 m.ruleCount).map fun i => before ++ DateTime.zfill 5 i := by
  have hall := mapM_eq_ok.mp h
  clear h
  generalize List.range' 1 m.ruleCount = l at hall ⊢
  induction hall with
  | nil => rfl
  | cons hr _ ih => rw [List.map_cons, List.map_cons, hm.ruleId hr, ih]

theorem nodup_ruleIds (hm : m.Numbers before) {rules : List EnrichmentRule}
    (h : m.rows now = .ok rules) : (rules.map EnrichmentRule.ruleId).Nodup := by
  rw [ruleId_rows hm h]
  refine List.Nodup.map_on ?_ List.nodup_range'
  intro i hi j hj heq
  rw [List.mem_range'_1] at hi hj
  have hcount := hm.count
  have hnumber : DateTime.zfill 5 i = DateTime.zfill 5 j := String.append_right_inj before |>.mp heq
  exact zfill_inj (by decide) (by omega) (by omega) hnumber

/-- None of the ids is stored. -/
def IdsFree (m : SeedMigration) (before : String) (db : Database) : Prop :=
  ∀ i, 1 ≤ i → i ≤ m.ruleCount → db.rules.find? (before ++ DateTime.zfill 5 i) = none

theorem idsFree_iff (hm : m.Numbers before) {rules : List EnrichmentRule} (h : m.rows now = .ok rules)
    {db : Database} :
    m.IdsFree before db ↔ ∀ r ∈ rules, db.rules.find? r.ruleId = none := by
  have hids : (∀ r ∈ rules, db.rules.find? r.ruleId = none) ↔
      ∀ id ∈ rules.map EnrichmentRule.ruleId, db.rules.find? id = none := by
    simp only [List.mem_map, forall_exists_index, and_imp, forall_apply_eq_imp_iff₂]
  rw [hids, ruleId_rows hm h, List.forall_mem_map]
  simp only [List.mem_range'_1, and_imp]
  refine forall_congr' fun i => forall_congr' fun h₁ => ?_
  exact ⟨fun hi h₂ => hi (by omega), fun hi h₂ => hi (by omega)⟩

/-- What `downgrade` drops. -/
def drops (m : SeedMigration) (r : EnrichmentRule) : Bool :=
  SqlLike.like m.pattern.toList r.ruleId.toList

theorem drops_iff (hm : m.Numbers before) {r : EnrichmentRule} :
    m.drops r = true ↔ before.toList <+: r.ruleId.toList := by
  have hpattern : m.pattern.toList = before.toList ++ ['%'] := by
    rw [hm.pattern, String.toList_append]
    rfl
  unfold drops
  rw [hpattern]
  exact SqlLike.like_prefix_iff hm.noWildcard _

/-- Every rule of the migration is dropped. -/
theorem drops_rows (hm : m.Numbers before) {rules : List EnrichmentRule} (h : m.rows now = .ok rules) :
    ∀ r ∈ rules, m.drops r = true := by
  intro r hr
  have hid : r.ruleId ∈ rules.map EnrichmentRule.ruleId := List.mem_map_of_mem hr
  rw [ruleId_rows hm h] at hid
  obtain ⟨i, _, hi⟩ := List.mem_map.mp hid
  rw [drops_iff hm, ← hi, String.toList_append]
  exact List.prefix_append _ _

end SeedMigration

theorem isOk_map {ε α β : Type} (f : α → β) (x : Except ε α) : (x.map f).isOk = x.isOk := by
  cases x <;> rfl

theorem validToOf_isOk {days : Nat} {ends : Bool} : (validToOf now days ends).isOk = true ↔
    (ends = true → now.toordinal + days ≤ 3652059) := by
  unfold validToOf
  cases ends with
  | false => exact iff_of_true rfl (fun h => absurd h Bool.false_ne_true)
  | true =>
    rw [if_pos rfl, isOk_map, DateTime.plusDays_isOk]
    exact ⟨fun h _ => h, fun h => h rfl⟩

/-- A rule that starts some days ago and may end some days from now. -/
theorem rule_isOk {n days : Nat} {ends : Bool} {make : DateTime → Option DateTime → EnrichmentRule} :
    (now.minusDays n >>= fun validFrom => validToOf now days ends >>= fun validTo =>
        (pure (make validFrom validTo) : Except PyErr EnrichmentRule)).isOk = true ↔
      n < now.toordinal ∧ (ends = true → now.toordinal + days ≤ 3652059) := by
  rw [bind_isOk, ← DateTime.minusDays_isOk, ← validToOf_isOk, isOk_iff (x := now.minusDays n)]
  simp only [bind_isOk, pure_isOk, and_true]
  rw [isOk_iff (x := validToOf now days ends)]
  constructor
  · rintro ⟨a, ha, b, hb⟩
    exact ⟨⟨a, ha⟩, ⟨b, hb⟩⟩
  · rintro ⟨⟨a, ha⟩, ⟨b, hb⟩⟩
    exact ⟨a, ha, b, hb⟩

/-- The rows can be made if each date can: some start `back` days ago, and
    every so often one ends in some `days`. -/
theorem rows_isOk {m : SeedMigration} {back days : Nat} (every : Nat)
    (hrule : ∀ i, (m.rule now i).isOk = true ↔ i % (back + 1) < now.toordinal ∧
      (decide (i % every = 0) = true → now.toordinal + days ≤ 3652059))
    (hback : 1 ≤ back ∧ back < 1 + m.ruleCount) (hevery : 1 ≤ every ∧ every < 1 + m.ruleCount) :
    (m.rows now).isOk = true ↔ back < now.toordinal ∧ now.toordinal + days ≤ 3652059 := by
  unfold SeedMigration.rows
  rw [mapM_isOk]
  simp only [hrule, List.mem_range'_1, decide_eq_true_eq]
  constructor
  · intro h
    have hstarts := (h back hback).1
    rw [Nat.mod_eq_of_lt (Nat.lt_succ_self back)] at hstarts
    exact ⟨hstarts, (h every hevery).2 (Nat.mod_self every)⟩
  · intro h i _
    have hlt : i % (back + 1) < back + 1 := Nat.mod_lt i (Nat.succ_pos back)
    exact ⟨by omega, fun _ => h.2⟩

theorem rows_bulk_isOk : (seedBulkRules.rows now).isOk = true ↔
    9 < now.toordinal ∧ now.toordinal + 180 ≤ 3652059 :=
  rows_isOk 9 (fun _ => rule_isOk) (by decide) (by decide)

theorem rows_longtail_isOk : (seedLongtailRules.rows now).isOk = true ↔
    44 < now.toordinal ∧ now.toordinal + 365 ≤ 3652059 :=
  rows_isOk 8 (fun _ => rule_isOk) (by decide) (by decide)

/-! ## Migrations -/

theorem newRules_empty (rules : List EnrichmentRule) :
    EnrichmentRuleRepository.newRules .empty rules = rules :=
  List.filter_eq_self.mpr fun _ _ => rfl

/-- Rows that are inserted in one transaction: their ids are distinct and
    free, or nothing is stored. -/
theorem applyAll_insertRules {rules : List EnrichmentRule} {db db' : Database} :
    applyAll Write.apply (rules.map .insertRule) db = .ok db' ↔
      (rules.map EnrichmentRule.ruleId).Nodup ∧ (∀ r ∈ rules, db.rules.find? r.ruleId = none) ∧
        db' = { db with rules := db.rules.upsertAll rules } := by
  have hwrites : rules.map Write.insertRule =
      rules.map (EnrichmentRuleRepository.upsertWrite .empty) := rfl
  rw [hwrites, EnrichmentRuleRepository.applyAll_upsertMany (fun _ h => absurd rfl h), newRules_empty]

namespace SeedMigration

variable {m : SeedMigration} {before : String} {db db' : Database}

/-- **An upgrade** stores all rules of the migration if their dates exist
    and none of their ids is taken, else it raises. -/
theorem upgrade_eq_ok_iff (hm : m.Numbers before) : m.upgrade now db = .ok db' ↔
    ∃ rules, m.rows now = .ok rules ∧ (∀ r ∈ rules, db.rules.find? r.ruleId = none) ∧
      db' = { db with rules := db.rules.upsertAll rules } := by
  unfold upgrade
  cases hrows : m.rows now with
  | error e => simp
  | ok rules =>
    simp only [Except.ok.injEq, exists_eq_left']
    rw [applyAll_insertRules, and_iff_right (nodup_ruleIds hm hrows)]

theorem rows_upgrade (hm : m.Numbers before) (h : m.upgrade now db = .ok db') :
    ∃ rules, m.rows now = .ok rules ∧ db'.rules.rows = db.rules.rows ++ rules ∧
      db' = { db with rules := db'.rules } := by
  obtain ⟨rules, hrows, hfree, rfl⟩ := (upgrade_eq_ok_iff hm).mp h
  exact ⟨rules, hrows, Table.rows_upsertAll_of_new (nodup_ruleIds hm hrows) hfree, rfl⟩

theorem rows_downgrade (m : SeedMigration) (db : Database) :
    (m.downgrade db).rules.rows = db.rules.rows.filter fun r => !m.drops r := rfl

/-- A downgrade undoes the upgrade, apart from what else its pattern
    matches. -/
theorem rows_downgrade_upgrade (hm : m.Numbers before) (h : m.upgrade now db = .ok db') :
    (m.downgrade db').rules.rows = db.rules.rows.filter fun r => !m.drops r := by
  obtain ⟨rules, hrows, happend, _⟩ := rows_upgrade hm h
  have hnew : rules.filter (fun r => !m.drops r) = [] := by
    refine List.filter_eq_nil_iff.mpr fun r hr => ?_
    rw [drops_rows hm hrows r hr]
    exact Bool.false_ne_true
  rw [rows_downgrade, happend, List.filter_append, hnew, List.append_nil]

end SeedMigration

/-- No id is of both migrations. -/
theorem not_both_migrations {id : List Char} (hbulk : "BULK-RULE-".toList <+: id)
    (hlong : "LTAIL-RULE-".toList <+: id) : False := by
  obtain ⟨rest, hrest⟩ := hbulk
  obtain ⟨rest', hrest'⟩ := hlong
  have hhead : ("BULK-RULE-".toList ++ rest).head? = ("LTAIL-RULE-".toList ++ rest').head? := by
    rw [hrest, hrest']
  exact absurd (Option.some.inj hhead) (by decide)

namespace MigratedDatabase

variable {clock : SeedMigration → DateTime} {s s' : MigratedDatabase}

theorem upgradeHead_of_initial (hinit : s.revision = .initial) :
    s.upgradeHead clock = (.ok (), s') ↔ ∃ db₁ db₂,
      seedBulkRules.upgrade (clock seedBulkRules) s.db = .ok db₁ ∧
        seedLongtailRules.upgrade (clock seedLongtailRules) db₁ = .ok db₂ ∧
          s' = ⟨.longtailRules, db₂⟩ := by
  simp only [upgradeHead, hinit, Revision.missing, upgradeAll]
  cases hbulk : seedBulkRules.upgrade (clock seedBulkRules) s.db with
  | error e => simp
  | ok db₁ =>
    cases hlong : seedLongtailRules.upgrade (clock seedLongtailRules) db₁ with
    | error e => simp [hlong]
    | ok db₂ => simp [hlong, eq_comm]

/-- What two downgrades from the head leave. -/
theorem downgradeOne_downgradeOne (db : Database) :
    (MigratedDatabase.mk .longtailRules db).downgradeOne.downgradeOne =
      ⟨.initial, seedBulkRules.downgrade (seedLongtailRules.downgrade db)⟩ := rfl

/-- **Migrations**, on PostgreSQL. From the initial schema an upgrade goes
    through if and only if the dates of all rules exist and none of their
    ids is stored, and where it does not, the database stays as it was,
    which takes the one transaction around them. Two downgrades then
    lead back to the database before the upgrade if and only if that has no
    rule whose id starts as those of the migrations do: such a rule is
    dropped as well, whoever wrote it. -/
theorem migrations_undone_iff (clock : SeedMigration → DateTime) {s : MigratedDatabase}
    (hinit : s.revision = .initial) :
    ((∃ s', s.upgradeHead clock = (.ok (), s')) ↔
      ((9 < (clock seedBulkRules).toordinal ∧ (clock seedBulkRules).toordinal + 180 ≤ 3652059) ∧
        44 < (clock seedLongtailRules).toordinal ∧
          (clock seedLongtailRules).toordinal + 365 ≤ 3652059) ∧
      seedBulkRules.IdsFree "BULK-RULE-" s.db ∧ seedLongtailRules.IdsFree "LTAIL-RULE-" s.db) ∧
    (∀ e s', s.upgradeHead clock = (.error e, s') → s' = s) ∧
    ∀ s', s.upgradeHead clock = (.ok (), s') →
      (s'.downgradeOne.downgradeOne = s ↔ ∀ r ∈ s.db.rules.rows,
        ¬ "BULK-RULE-".toList <+: r.ruleId.toList ∧ ¬ "LTAIL-RULE-".toList <+: r.ruleId.toList) := by
  have hbulk := seedBulkRules_numbers
  have hlong := seedLongtailRules_numbers
  refine ⟨?_, ?_, ?_⟩
  · simp only [upgradeHead_of_initial hinit]
    rw [← rows_bulk_isOk, ← rows_longtail_isOk, isOk_iff, isOk_iff]
    constructor
    · rintro ⟨s', db₁, db₂, h₁, h₂, _⟩
      obtain ⟨bulk, hrows, hfree, hdb₁⟩ := (SeedMigration.upgrade_eq_ok_iff hbulk).mp h₁
      obtain ⟨longtail, hrows', hfree', _⟩ := (SeedMigration.upgrade_eq_ok_iff hlong).mp h₂
      refine ⟨⟨⟨bulk, hrows⟩, longtail, hrows'⟩, (SeedMigration.idsFree_iff hbulk hrows).mpr hfree,
        (SeedMigration.idsFree_iff hlong hrows').mpr ?_⟩
      intro r hr
      have hnone := hfree' r hr
      rw [hdb₁, Table.find?_upsertAll, Option.or_eq_none_iff] at hnone
      exact hnone.2
    · rintro ⟨⟨⟨bulk, hrows⟩, longtail, hrows'⟩, hids, hids'⟩
      have hfree := (SeedMigration.idsFree_iff hbulk hrows).mp hids
      have hfree' := (SeedMigration.idsFree_iff hlong hrows').mp hids'
      have h₁ := (SeedMigration.upgrade_eq_ok_iff hbulk).mpr ⟨bulk, hrows, hfree, rfl⟩
      refine ⟨_, _, _, h₁, (SeedMigration.upgrade_eq_ok_iff hlong).mpr ⟨longtail, hrows', ?_, rfl⟩, rfl⟩
      intro r hr
      -- no rule of the first migration has the id
      rw [Table.find?_eq_none_iff]
      intro x hx heq
      change x ∈ (s.db.rules.upsertAll bulk).rows at hx
      rw [Table.rows_upsertAll_of_new (SeedMigration.nodup_ruleIds hbulk hrows) hfree,
        List.mem_append] at hx
      rcases hx with hx | hx
      · exact (Table.find?_eq_none_iff _ _).mp (hfree' r hr) x hx heq
      · have hb := (SeedMigration.drops_iff hbulk).mp (SeedMigration.drops_rows hbulk hrows x hx)
        have hl := (SeedMigration.drops_iff hlong).mp (SeedMigration.drops_rows hlong hrows' r hr)
        rw [heq] at hb
        exact not_both_migrations hb hl
  · intro e s' h
    unfold upgradeHead at h
    cases hall : upgradeAll (s.revision.missing clock) s.db with
    | error e' =>
      rw [hall] at h
      exact (Prod.mk.inj h).2.symm
    | ok db =>
      rw [hall] at h
      cases h
  · intro s' h
    obtain ⟨db₁, db₂, h₁, h₂, rfl⟩ := (upgradeHead_of_initial hinit).mp h
    obtain ⟨bulk, hrows, happend, hdb₁⟩ := SeedMigration.rows_upgrade hbulk h₁
    obtain ⟨longtail, _, _, hdb₂⟩ := SeedMigration.rows_upgrade hlong h₂
    rw [downgradeOne_downgradeOne]
    let db := seedBulkRules.downgrade (seedLongtailRules.downgrade db₂)
    -- the rules of the first migration are dropped by the second downgrade
    have hkept : db.rules.rows = (s.db.rules.rows.filter fun r => !seedLongtailRules.drops r).filter
        fun r => !seedBulkRules.drops r := by
      have hnew : (bulk.filter fun r => !seedLongtailRules.drops r).filter
          (fun r => !seedBulkRules.drops r) = [] := by
        refine List.filter_eq_nil_iff.mpr fun r hr => ?_
        rw [SeedMigration.drops_rows hbulk hrows r (List.mem_filter.mp hr).1]
        exact Bool.false_ne_true
      show ((seedLongtailRules.downgrade db₂).rules.rows.filter fun r => !seedBulkRules.drops r) = _
      rw [SeedMigration.rows_downgrade_upgrade hlong h₂, happend, List.filter_append,
        List.filter_append, hnew, List.append_nil]
    have hothers : db = { s.db with rules := db.rules } := by
      show { db₂ with rules := db.rules } = _
      rw [hdb₂, hdb₁]
    have hsame : (MigratedDatabase.mk .initial db = s) ↔ db.rules.rows = s.db.rules.rows := by
      constructor
      · rintro rfl
        rfl
      · intro h
        obtain ⟨revision, db'⟩ := s
        obtain rfl : revision = .initial := hinit
        rw [hothers, Table.ext h]
    rw [hsame, hkept, List.filter_filter, List.filter_eq_self]
    refine forall₂_congr fun r _ => ?_
    rw [Bool.and_eq_true, Bool.not_eq_true', Bool.not_eq_true', ← Bool.not_eq_true,
      ← Bool.not_eq_true, SeedMigration.drops_iff hbulk, SeedMigration.drops_iff hlong]

/-- On an empty table the migrations run and can be undone. -/
theorem migrations_undone_iff_fresh :
    let s : MigratedDatabase := ⟨.initial, Database.fresh .empty⟩
    ∃ s', s.upgradeHead (fun _ => Sample.nine) = (.ok (), s') ∧ s'.downgradeOne.downgradeOne = s := by
  intro s
  obtain ⟨hupgrade, _, hundone⟩ := migrations_undone_iff (fun _ => Sample.nine) (s := s) rfl
  obtain ⟨s', hs'⟩ := hupgrade.mpr
    ⟨⟨by decide, by decide⟩, fun _ _ _ => rfl, fun _ _ _ => rfl⟩
  refine ⟨s', hs', (hundone s' hs').mpr ?_⟩
  intro r hr
  cases hr

end MigratedDatabase

end RulesEnrichment
