import RulesEnrichment.Lib.SqlLike
import RulesEnrichment.Model.Workers

/-! # Rules that come with the repository

    The migrations `0002_seed_bulk_rules` and `0003_seed_longtail_rules`,
    the `seed-rules` command with its baseline rules, and `validate-rules`.

    The database is PostgreSQL: `alembic upgrade head` runs the migrations
    that are missing in one transaction (`migrations/env.py`), so either all
    of their rows are stored or none is, and `LIKE` tells upper from lower
    case. On SQLite each migration is committed by itself, and `LIKE`
    ignores the case of ASCII letters. -/

namespace RulesEnrichment

open Python KeyedTable UnitOfWork

/-! ## Days -/

theorem one_le_daysInMonth (y m : Nat) : 1 ≤ daysInMonth y m := by
  unfold daysInMonth
  split_ifs <;> decide

namespace DateTime

/-- The same time a day later, while there are dates. -/
def tomorrow (d : DateTime) : Option DateTime :=
  have hv := d.valid
  if hday : d.day < daysInMonth d.year d.month then
    some { d with
      day := d.day + 1
      valid := by
        simp only [validDateTime, decide_eq_true_eq] at hv ⊢
        omega }
  else if hmonth : d.month < 12 then
    some { d with
      month := d.month + 1
      day := 1
      valid := by
        simp only [validDateTime, decide_eq_true_eq] at hv ⊢
        have hpos := one_le_daysInMonth d.year (d.month + 1)
        omega }
  else if hyear : d.year < 9999 then
    some { d with
      year := d.year + 1
      month := 1
      day := 1
      valid := by
        simp only [validDateTime, decide_eq_true_eq] at hv ⊢
        have hpos := one_le_daysInMonth (d.year + 1) 1
        omega }
  else none

/-- The same time a day earlier, while there are dates. -/
def yesterday (d : DateTime) : Option DateTime :=
  have hv := d.valid
  if hday : 1 < d.day then
    some { d with
      day := d.day - 1
      valid := by
        simp only [validDateTime, decide_eq_true_eq] at hv ⊢
        omega }
  else if hmonth : 1 < d.month then
    some { d with
      month := d.month - 1
      day := daysInMonth d.year (d.month - 1)
      valid := by
        simp only [validDateTime, decide_eq_true_eq] at hv ⊢
        have hpos := one_le_daysInMonth d.year (d.month - 1)
        omega }
  else if hyear : 1 < d.year then
    some { d with
      year := d.year - 1
      month := 12
      day := daysInMonth (d.year - 1) 12
      valid := by
        simp only [validDateTime, decide_eq_true_eq] at hv ⊢
        have hpos := one_le_daysInMonth (d.year - 1) 12
        omega }
  else none

/-- Step by step; there is no date beyond the first and the last one. -/
def stepDays (next : DateTime → Option DateTime) : Nat → DateTime → Except PyErr DateTime
  | 0, d => .ok d
  | n + 1, d =>
    match next d with
    | some d' => stepDays next n d'
    | none => .error ⟨.OverflowError, "date value out of range"⟩

/-- `d + timedelta(days=n)` -/
def plusDays (d : DateTime) (n : Nat) : Except PyErr DateTime := stepDays tomorrow n d

/-- `d - timedelta(days=n)` -/
def minusDays (d : DateTime) (n : Nat) : Except PyErr DateTime := stepDays yesterday n d

end DateTime

/-- `now + timedelta(days=days)` for the rules that end, `None` for the
    others. -/
def validToOf (now : DateTime) (days : Nat) (ends : Bool) : Except PyErr (Option DateTime) :=
  if ends then (now.plusDays days).map some else .ok none

/-- A predicate of the conditions. -/
def predicateVal (field op : String) (value : PyVal) : PyVal :=
  .dict [("field", .str field), ("op", .str op), ("value", value)]

/-! ## `0002_seed_bulk_rules` -/

namespace BulkRules

def ruleCount : Nat := 3200

def countries : List String := ["ES", "FR", "DE", "IT", "PT", "NL"]

def tempClasses : List String := ["AMBIENT", "CHILLED", "FROZEN"]

/-- `float((i % 30) + 1)` -/
def weight (i : Nat) : PyFloat := ⟨toString (i % 30 + 1) ++ ".0", (i % 30 + 1 : Nat), 1, by decide⟩

def conditions (country : String) (weight : PyFloat) : JsonObject where
  entries := [("and", .list [
    predicateVal "destination_address.country_code" "eq" (.str country),
    predicateVal "total_weight_kg" "gte" (.float weight),
    predicateVal "source_address.address_line_1" "contains" (.str "Via"),
    predicateVal "priority" "lte" (.int 5)])]
  wf := rfl

def enrichment (i : Nat) (country temp : String) : JsonObject where
  entries := [("destination_lane", .str (country ++ "0" ++ toString (i % 7 + 1))),
    ("source_handling_code", .str ("SRC-" ++ DateTime.zfill 2 (i % 12 + 1))),
    ("treatment_code", .str (if i % 3 ≠ 0 then "STANDARD" else "PRIORITY")),
    ("allocation_zone", .str ("Z" ++ DateTime.zfill 2 (i % 18 + 1))),
    ("shipping_constraints", .dict [("fragile", .bool (i % 5 = 0)),
      ("temperature_class", .str temp)])]
  wf := rfl

/-- The row that the loop makes of `i`. -/
def rule (now : DateTime) (i : Nat) : Except PyErr EnrichmentRule := do
  let clientIdx := (i - 1) % 60 + 1
  let facilityIdx := (i - 1) % 3 + 1
  let facility := "SIMF-" ++ DateTime.zfill 3 clientIdx ++ "-" ++ DateTime.zfill 2 facilityIdx
  let country := countries.getD (i % 6) ""
  let temp := tempClasses.getD (i % 3) ""
  let validFrom ← now.minusDays (i % 10)
  let validTo ← validToOf now 180 (i % 9 = 0)
  return {
    ruleId := "BULK-RULE-" ++ DateTime.zfill 5 i
    facilityCode := some facility
    clientCode := some ("SIMC-" ++ DateTime.zfill 3 clientIdx)
    zoneCode := if i % 4 ≠ 0 then none else some ("SIMZ-" ++ facility ++ "-01")
    ruleType := if i % 2 ≠ 0 then "destination" else "composite"
    priority := (i % 250 : Nat) + 1
    isActive := true
    conditionsJson := conditions country (weight i)
    enrichmentJson := enrichment i country temp
    validFrom := some validFrom
    validTo := validTo }

end BulkRules

/-! ## `0003_seed_longtail_rules` -/

namespace LongtailRules

def ruleCount : Nat := 2800

def countries : List String := ["ES", "FR", "DE", "IT", "PT", "NL", "BE", "AT"]

def operations : List String := ["contains", "starts_with", "ends_with"]

/-- `round(k * 0.05, 3)` for `k` from 0 to 19. -/
def volumes : List PyFloat :=
  [⟨"0.0", 0, 1, by decide⟩,
    ⟨"0.05", 3602879701896397, 72057594037927936, by decide⟩,
    ⟨"0.1", 3602879701896397, 36028797018963968, by decide⟩,
    ⟨"0.15", 5404319552844595, 36028797018963968, by decide⟩,
    ⟨"0.2", 3602879701896397, 18014398509481984, by decide⟩,
    ⟨"0.25", 1, 4, by decide⟩,
    ⟨"0.3", 5404319552844595, 18014398509481984, by decide⟩,
    ⟨"0.35", 3152519739159347, 9007199254740992, by decide⟩,
    ⟨"0.4", 3602879701896397, 9007199254740992, by decide⟩,
    ⟨"0.45", 8106479329266893, 18014398509481984, by decide⟩,
    ⟨"0.5", 1, 2, by decide⟩,
    ⟨"0.55", 2476979795053773, 4503599627370496, by decide⟩,
    ⟨"0.6", 5404319552844595, 9007199254740992, by decide⟩,
    ⟨"0.65", 5854679515581645, 9007199254740992, by decide⟩,
    ⟨"0.7", 3152519739159347, 4503599627370496, by decide⟩,
    ⟨"0.75", 3, 4, by decide⟩,
    ⟨"0.8", 3602879701896397, 4503599627370496, by decide⟩,
    ⟨"0.85", 7656119366529843, 9007199254740992, by decide⟩,
    ⟨"0.9", 8106479329266893, 9007199254740992, by decide⟩,
    ⟨"0.95", 4278419646001971, 4503599627370496, by decide⟩]

/-- `round((i % 20) * 0.05, 3)` -/
def volume (i : Nat) : PyFloat := volumes.getD (i % 20) ⟨"0.0", 0, 1, by decide⟩

def conditions (country textOp : String) (volume : PyFloat) : JsonObject where
  entries := [("or", .list [
    .dict [("and", .list [
      predicateVal "destination_address.country_code" "eq" (.str country),
      predicateVal "source_address.address_line_1" textOp
        (.str (if textOp ≠ "ends_with" then "Via" else "10"))])],
    .dict [("and", .list [
      predicateVal "total_volume_m3" "gt" (.float volume),
      predicateVal "priority" "in" (.list [.int 1, .int 2, .int 3, .int 4, .int 5])])]])]
  wf := rfl

def enrichment (i : Nat) (country : String) : JsonObject where
  entries := [("destination_lane", .str ("LN-" ++ country ++ "-" ++ toString (i % 9 + 1))),
    ("source_handling_code", .str ("LTAIL-" ++ DateTime.zfill 2 (i % 40 + 1))),
    ("treatment_code", .str (if i % 4 = 0 then "BULK" else "STANDARD")),
    ("allocation_zone", .str ("LT-" ++ DateTime.zfill 2 (i % 30 + 1)))]
  wf := rfl

/-- The row that the loop makes of `i`. -/
def rule (now : DateTime) (i : Nat) : Except PyErr EnrichmentRule := do
  let clientIdx := (i - 1) % 60 + 1
  let facilityIdx := (i - 1) % 3 + 1
  let country := countries.getD (i % 8) ""
  let textOp := operations.getD (i % 3) ""
  let validFrom ← now.minusDays (i % 45)
  let validTo ← validToOf now 365 (i % 8 = 0)
  return {
    ruleId := "LTAIL-RULE-" ++ DateTime.zfill 5 i
    facilityCode := if i % 6 ≠ 0 then none
      else some ("SIMF-" ++ DateTime.zfill 3 clientIdx ++ "-" ++ DateTime.zfill 2 facilityIdx)
    clientCode := some ("SIMC-" ++ DateTime.zfill 3 clientIdx)
    zoneCode := none
    ruleType := "origin_address"
    priority := 300 + (i % 400 : Nat)
    isActive := true
    conditionsJson := conditions country textOp (volume i)
    enrichmentJson := enrichment i country
    validFrom := some validFrom
    validTo := validTo }

end LongtailRules

/-! ## Running the migrations -/

/-- What differs between the two migrations. -/
structure SeedMigration where
  ruleCount : Nat
  rule : DateTime → Nat → Except PyErr EnrichmentRule
  /-- The pattern of the `DELETE` in `downgrade`. -/
  pattern : String

def seedBulkRules : SeedMigration := ⟨BulkRules.ruleCount, BulkRules.rule, "BULK-RULE-%"⟩

def seedLongtailRules : SeedMigration :=
  ⟨LongtailRules.ruleCount, LongtailRules.rule, "LTAIL-RULE-%"⟩

namespace SeedMigration

variable (m : SeedMigration)

/-- The rows of `upgrade` -/
def rows (now : DateTime) : Except PyErr (List EnrichmentRule) :=
  (List.range' 1 m.ruleCount).mapM (m.rule now)

/-- `upgrade`, within the transaction of the command -/
def upgrade (now : DateTime) (db : Database) : Except PyErr Database :=
  match m.rows now with
  | .error e => .error e
  | .ok rules => applyAll Write.apply (rules.map .insertRule) db

/-- `downgrade`, with the `LIKE` of PostgreSQL -/
def downgrade (db : Database) : Database :=
  { db with rules := db.rules.deleteWhere fun r => SqlLike.like m.pattern.toList r.ruleId.toList }

end SeedMigration

/-- The revision a database is at, from `0001_initial` on. -/
inductive Revision where
  | initial
  | bulkRules
  | longtailRules
  deriving DecidableEq

/-- The database with its `alembic_version`. -/
structure MigratedDatabase where
  revision : Revision
  db : Database

/-- The migrations that an upgrade to the head runs; each reads the clock
    on its own. -/
def Revision.missing (now : SeedMigration → DateTime) : Revision → List (SeedMigration × DateTime)
  | .initial => [(seedBulkRules, now seedBulkRules), (seedLongtailRules, now seedLongtailRules)]
  | .bulkRules => [(seedLongtailRules, now seedLongtailRules)]
  | .longtailRules => []

/-- One migration after the other, until one raises. -/
def upgradeAll : List (SeedMigration × DateTime) → Database → Except PyErr Database
  | [], db => .ok db
  | (m, now) :: ms, db =>
    match m.upgrade now db with
    | .error e => .error e
    | .ok db' => upgradeAll ms db'

namespace MigratedDatabase

/-- `alembic upgrade head`, in one transaction, as on PostgreSQL -/
def upgradeHead (now : SeedMigration → DateTime) (s : MigratedDatabase) :
    Except PyErr Unit × MigratedDatabase :=
  match upgradeAll (s.revision.missing now) s.db with
  | .error e => (.error e, s)
  | .ok db => (.ok (), ⟨.longtailRules, db⟩)

/-- `alembic downgrade -1`, from above the initial schema. Below it there
    would be no tables, and what is proved of runs of the commands is about
    runs that do not go there. -/
def downgradeOne (s : MigratedDatabase) : MigratedDatabase :=
  match s.revision with
  | .longtailRules => ⟨.bulkRules, seedLongtailRules.downgrade s.db⟩
  | .bulkRules => ⟨.initial, seedBulkRules.downgrade s.db⟩
  | .initial => s

end MigratedDatabase

/-! ## `seed-rules` and `validate-rules` -/

/-- The rules that `seed-rules` writes. -/
def baselineRules (now : DateTime) : List EnrichmentRule :=
  [{ ruleId := "RULE-DEST-ES-001"
     facilityCode := none
     clientCode := none
     zoneCode := none
     ruleType := "destination"
     priority := 10
     isActive := true
     conditionsJson :=
      { entries := [("and", .list [
          predicateVal "destination_address.country_code" "eq" (.str "ES")])]
        wf := rfl }
     enrichmentJson :=
      { entries := [("destination_lane", .str "ES01"), ("treatment_code", .str "STANDARD")]
        wf := rfl }
     validFrom := some now
     validTo := none },
   { ruleId := "RULE-ORIGIN-ROMA-002"
     facilityCode := some "FC-MIL-01"
     clientCode := some "DHL"
     zoneCode := none
     ruleType := "origin_address"
     priority := 20
     isActive := true
     conditionsJson :=
      { entries := [("and", .list [
          predicateVal "source_address.address_line_1" "contains" (.str "Via Roma")])]
        wf := rfl }
     enrichmentJson :=
      { entries := [("source_handling_code", .str "SPECIAL_ORIGIN"), ("allocation_zone", .str "A1")]
        wf := rfl }
     validFrom := some now
     validTo := none }]

/-- A call of the `seed-rules` command and what the environment does
    during it. -/
structure SeedCall where
  force : Bool
  /-- The clock at the query, and when the rules are made. -/
  checkedAt : DateTime
  now : DateTime
  scan : ScanOrder EnrichmentRule := .physical
  queryFault : Option PyErr := none
  commitFault : Option PyErr := none

/-- What both commands count. -/
def activeRules (scan : ScanOrder EnrichmentRule) (now : DateTime) (db : Database) : Nat :=
  (EnrichmentRuleRepository.listActiveRules (Session.enter db) scan now none none none).length

/-- `seed-rules`, with the line it prints -/
def seedRules (c : SeedCall) (db : Database) : Except PyErr String × Database :=
  match c.queryFault with
  | some e => (.error e, db)
  | none =>
    let existing := activeRules c.scan c.checkedAt db
    if 0 < existing ∧ !c.force then
      (.ok ("skipped=true reason=rules_already_present active_rules=" ++ toString existing ++
        " hint='use --force to upsert baseline rules'"), db)
    else
      match DbSession.commit (EnrichmentRuleRepository.upsertMany (Session.enter db)
          (baselineRules c.now)) c.commitFault db with
      | (.error e, db) => (.error e, db)
      | (.ok (), db) => (.ok "seeded_rules=2 mode=baseline", db)

/-- `validate-rules`, with the line it prints -/
def validateRules (scan : ScanOrder EnrichmentRule) (now : DateTime) (queryFault : Option PyErr)
    (db : Database) : Except PyErr String :=
  match queryFault with
  | some e => .error e
  | none => .ok ("active_rules=" ++ toString (activeRules scan now db))

end RulesEnrichment
