import RulesEnrichment.SeededRules
import RulesEnrichment.Lib.Machine

/-! # Running the commands

    Migrations and `seed-rules`, in any order. They touch no other table,
    and no rule but those with the ids of the baseline and with ids that
    start as those of the migrations do.

    * `administered_rules_decide`: on an empty database, whatever they store
      can be evaluated on every order.
    * `seed_rules_runs`: with a clock that does not go back, once
      `seed-rules` has written its rules, it does not write them again
      unless it is forced to, and they stay. -/

namespace RulesEnrichment

open KeyedTable UnitOfWork StepMachine EnrichmentRuleRepository

/-! ## The machine -/

inductive Command where
  | upgrade (clock : SeedMigration → DateTime)
  | downgrade
  | seed (c : SeedCall)

/-- The database, and the latest time that a command has read. -/
structure Administration where
  migrated : MigratedDatabase
  time : Int

namespace Administration

def db (s : Administration) : Database := s.migrated.db

def step (s : Administration) : Command → Administration
  | .upgrade clock =>
    ⟨(s.migrated.upgradeHead clock).2, (clock seedLongtailRules).instant⟩
  | .downgrade => ⟨s.migrated.downgradeOne, s.time⟩
  | .seed c => ⟨⟨s.migrated.revision, (seedRules c s.db).2⟩, c.now.instant⟩

/-- The clock is that of `datetime.now(tz=timezone.utc)`, and no downgrade
    goes below `0001_initial`, which would drop the tables. -/
def guard (s : Administration) : Command → Prop
  | .upgrade clock => (clock seedBulkRules).utcoffset = some 0 ∧
    (clock seedLongtailRules).utcoffset = some 0
  | .downgrade => s.migrated.revision ≠ .initial
  | .seed c => c.checkedAt.utcoffset = some 0 ∧ c.now.utcoffset = some 0

/-- Commands on a database that holds no rules at first. -/
def machine : Machine Administration Command where
  init s := s.migrated.revision = .initial ∧ s.db.rules = .empty
  guard := guard
  step := step

/-- The clock does not go back. -/
def Forward (s : Administration) : Command → Prop
  | .upgrade clock => s.time ≤ (clock seedBulkRules).instant ∧
    (clock seedBulkRules).instant ≤ (clock seedLongtailRules).instant
  | .downgrade => True
  | .seed c => s.time ≤ c.checkedAt.instant ∧ c.checkedAt.instant ≤ c.now.instant

/-- The same commands with such a clock. -/
def forward : Machine Administration Command :=
  { machine with guard := fun s cmd => guard s cmd ∧ Forward s cmd }

end Administration

/-! ## `seed-rules` -/

/-- What `seed-rules` prints when it has written its rules. -/
def seededLine : String := "seeded_rules=2 mode=baseline"

def skippedLine (existing : Nat) : String :=
  "skipped=true reason=rules_already_present active_rules=" ++ toString existing ++
    " hint='use --force to upsert baseline rules'"

theorem nodup_baseline (now : DateTime) :
    ((baselineRules now).map EnrichmentRule.ruleId).Nodup := by
  have hids : (baselineRules now).map EnrichmentRule.ruleId =
      ["RULE-DEST-ES-001", "RULE-ORIGIN-ROMA-002"] := rfl
  rw [hids]
  decide

/-- Nothing is repeated among the baseline rules, so their flush goes
    through. -/
theorem applyAll_baseline (now : DateTime) (db : Database) :
    applyAll Write.apply (upsertMany (Session.enter db) (baselineRules now)).writes db =
      .ok { db with rules := db.rules.upsertAll (baselineRules now) } := by
  rw [upsertMany_eq, Session.writes_enter, List.nil_append]
  have hdistinct : ((newRules db.rules (baselineRules now)).map EnrichmentRule.ruleId).Nodup :=
    (nodup_baseline now).sublist (List.filter_sublist.map _)
  exact (applyAll_upsertMany fun _ h => h).mpr ⟨hdistinct, fun r hr => (mem_newRules.mp hr).2, rfl⟩

/-- `seed-rules` writes if nothing is active or it is forced to. -/
def SeedCall.Wants (c : SeedCall) (db : Database) : Prop :=
  activeRules c.scan c.checkedAt db = 0 ∨ c.force = true

/-- **The ways through `seed-rules`.** -/
theorem seedRules_cases (c : SeedCall) (db : Database) :
    (∃ e, seedRules c db = (.error e, db) ∧ (c.queryFault = none → c.Wants db)) ∨
    (seedRules c db = (.ok (skippedLine (activeRules c.scan c.checkedAt db)), db) ∧
      ¬ c.Wants db) ∨
    (seedRules c db =
        (.ok seededLine, { db with rules := db.rules.upsertAll (baselineRules c.now) }) ∧
      c.Wants db) := by
  unfold seedRules SeedCall.Wants
  cases hquery : c.queryFault with
  | some e => exact Or.inl ⟨e, rfl, fun h => nomatch h⟩
  | none =>
    by_cases hskip : 0 < activeRules c.scan c.checkedAt db ∧ (!c.force) = true
    · refine Or.inr (Or.inl ⟨if_pos hskip, ?_⟩)
      rintro (hnone | hforce)
      · omega
      · rw [hforce] at hskip
        cases hskip.2
    · have hwants : activeRules c.scan c.checkedAt db = 0 ∨ c.force = true := by
        rcases Nat.eq_zero_or_pos (activeRules c.scan c.checkedAt db) with hnone | hsome
        · exact Or.inl hnone
        · cases hforce : c.force with
          | true => exact Or.inr rfl
          | false => exact absurd ⟨hsome, by rw [hforce]; rfl⟩ hskip
      simp only [if_neg hskip]
      unfold DbSession.commit UnitOfWork.commit
      rw [applyAll_baseline]
      cases c.commitFault with
      | some e => exact Or.inl ⟨e, rfl, fun _ => hwants⟩
      | none => exact Or.inr (Or.inr ⟨rfl, hwants⟩)

/-! ## What a command can change -/

namespace SeedMigration

variable {m : SeedMigration} {before id : String} {now : DateTime} {db db' : Database}

theorem find?_upgrade (hm : m.Numbers before) (hid : ¬ before.toList <+: id.toList)
    (h : m.upgrade now db = .ok db') : db'.rules.find? id = db.rules.find? id := by
  obtain ⟨rules, hrows, _, rfl⟩ := (upgrade_eq_ok_iff hm).mp h
  have hnone : rules.filter (fun r => decide (r.ruleId = id)) = [] := by
    refine List.filter_eq_nil_iff.mpr fun r hr heq => hid ?_
    rw [← of_decide_eq_true heq]
    exact (drops_iff hm).mp (drops_rows hm hrows r hr)
  show (db.rules.upsertAll rules).find? id = _
  rw [Table.find?_upsertAll, hnone]
  rfl

theorem find?_downgrade (hm : m.Numbers before) (hid : ¬ before.toList <+: id.toList) :
    (m.downgrade db).rules.find? id = db.rules.find? id := by
  show (db.rules.deleteWhere m.drops).find? id = _
  rw [Table.find?_deleteWhere]
  cases hr : db.rules.find? id with
  | none => rfl
  | some r =>
    have hkept : m.drops r = false := by
      rw [← Bool.not_eq_true, drops_iff hm, ((Table.find?_eq_some_iff _ _ _).mp hr).2]
      exact hid
    exact Option.filter_some_pos (by rw [hkept]; rfl)

/-- The rules that an upgrade adds. -/
theorem mem_upgrade (hm : m.Numbers before) (h : m.upgrade now db = .ok db') {r : EnrichmentRule}
    (hr : r ∈ db'.rules.rows) : r ∈ db.rules.rows ∨ ∃ i, m.rule now i = .ok r := by
  obtain ⟨rules, hrows, happend, _⟩ := rows_upgrade hm h
  rw [happend, List.mem_append] at hr
  refine hr.imp id ?_
  intro hr
  obtain ⟨i, _, hi⟩ := Fallible.mem_of_mapM_eq_ok hrows hr
  exact ⟨i, hi⟩

end SeedMigration

namespace Administration

variable {s : Administration} {cmd : Command}

/-- The migrations, each with what its ids start with. -/
def migrations : List (SeedMigration × String) :=
  [(seedBulkRules, "BULK-RULE-"), (seedLongtailRules, "LTAIL-RULE-")]

theorem numbers_of_mem {m : SeedMigration} {before : String} (h : (m, before) ∈ migrations) :
    m.Numbers before := by
  rcases List.mem_cons.mp h with h | h
  · obtain ⟨rfl, rfl⟩ := Prod.mk.inj h
    exact seedBulkRules_numbers
  · obtain ⟨rfl, rfl⟩ := Prod.mk.inj (List.mem_singleton.mp h)
    exact seedLongtailRules_numbers

/-- **Upgrades**: what each migration keeps. -/
theorem upgradeAll_rule {P : Database → Prop} {ms : List (SeedMigration × DateTime)}
    (hstep : ∀ m now db db', (m, now) ∈ ms → P db → m.upgrade now db = .ok db' → P db')
    {db db' : Database} (hP : P db) (h : upgradeAll ms db = .ok db') : P db' := by
  induction ms generalizing db with
  | nil => exact Except.ok.inj h ▸ hP
  | cons p ms ih =>
    obtain ⟨m, now⟩ := p
    unfold upgradeAll at h
    cases hm : m.upgrade now db with
    | error e =>
      rw [hm] at h
      cases h
    | ok db₁ =>
      rw [hm] at h
      exact ih (fun m now db db' hin => hstep m now db db' (List.mem_cons_of_mem _ hin))
        (hstep m now db db₁ List.mem_cons_self hP hm) h

/-- **Commands**: what the migrations keep, in both directions, and the
    baseline rules of this command, the command keeps. -/
theorem db_step_rule {P : Database → Prop} (hg : guard s cmd) (hP : P s.db)
    (hup : ∀ m before now db db', (m, before) ∈ migrations → now.utcoffset = some 0 → P db →
      m.upgrade now db = .ok db' → P db')
    (hdown : ∀ m before db, (m, before) ∈ migrations → P db → P (m.downgrade db))
    (hseed : ∀ c, cmd = .seed c → (seedRules c s.db).1 = .ok seededLine →
      P { s.db with rules := s.db.rules.upsertAll (baselineRules c.now) }) :
    P (step s cmd).db := by
  cases cmd with
  | upgrade clock =>
    obtain ⟨hutc, hutc'⟩ := hg
    show P (s.migrated.upgradeHead clock).2.db
    unfold MigratedDatabase.upgradeHead
    cases hall : upgradeAll (s.migrated.revision.missing clock) s.migrated.db with
    | error e => exact hP
    | ok db =>
      refine upgradeAll_rule ?_ hP hall
      intro m now db db' hin
      have hmissing : (m = seedBulkRules ∧ now = clock seedBulkRules) ∨
          (m = seedLongtailRules ∧ now = clock seedLongtailRules) := by
        cases hrev : s.migrated.revision with
        | initial => simpa [hrev, Revision.missing] using hin
        | bulkRules => exact Or.inr (by simpa [hrev, Revision.missing] using hin)
        | longtailRules => simp [hrev, Revision.missing] at hin
      rcases hmissing with ⟨rfl, rfl⟩ | ⟨rfl, rfl⟩
      · exact hup _ _ _ db db' List.mem_cons_self hutc
      · exact hup _ _ _ db db' (List.mem_cons_of_mem _ List.mem_cons_self) hutc'
  | downgrade =>
    show P s.migrated.downgradeOne.db
    unfold MigratedDatabase.downgradeOne
    cases s.migrated.revision with
    | initial => exact hP
    | bulkRules => exact hdown _ _ _ List.mem_cons_self hP
    | longtailRules => exact hdown _ _ _ (List.mem_cons_of_mem _ List.mem_cons_self) hP
  | seed c =>
    show P (seedRules c s.db).2
    rcases seedRules_cases c s.db with ⟨e, hres, _⟩ | ⟨hres, _⟩ | ⟨hres, _⟩
    · rw [hres]
      exact hP
    · rw [hres]
      exact hP
    · rw [hres]
      exact hseed c rfl (by rw [hres])

/-! ## Whatever is stored can be evaluated -/

theorem isSeeded_of_migration {m : SeedMigration} {before : String} (hm : (m, before) ∈ migrations)
    {now : DateTime} (hnow : now.utcoffset = some 0) {i : Nat} {r : EnrichmentRule}
    (hr : m.rule now i = .ok r) : IsSeeded r := by
  refine .migrated hnow ?_ hr
  rcases List.mem_cons.mp hm with h | h
  · exact Or.inl (Prod.mk.inj h).1
  · exact Or.inr (Prod.mk.inj (List.mem_singleton.mp h)).1

/-- What holds of every rule of the repository, and of those in the table,
    still does after a command. -/
theorem rules_step {P : EnrichmentRule → Prop} (hours : ∀ r, IsSeeded r → P r)
    (hall : ∀ r ∈ s.db.rules.rows, P r) (hg : guard s cmd) :
    ∀ r ∈ (step s cmd).db.rules.rows, P r := by
  refine db_step_rule (P := fun db => ∀ r ∈ db.rules.rows, P r) hg hall ?_ ?_ ?_
  · intro m before now db db' hm hnow hdb h r hr
    rcases SeedMigration.mem_upgrade (numbers_of_mem hm) h hr with hr | ⟨i, hi⟩
    · exact hdb r hr
    · exact hours r (isSeeded_of_migration hm hnow hi)
  · intro m before db _ hdb r hr
    exact hdb r (Table.mem_deleteWhere.mp hr).1
  · rintro c rfl _ r hr
    rcases Table.mem_upsertAll hr with hr | hr
    · exact hall r hr
    · exact hours r (.baseline hg.2 hr)

/-- **Provenance.** All rules in the table are of the repository. -/
theorem isSeeded_of_reachable (hs : machine.Reachable s) : ∀ r ∈ s.db.rules.rows, IsSeeded r := by
  refine machine.reachable_induction (I := fun s => ∀ r ∈ s.db.rules.rows, IsSeeded r) ?_ ?_ hs
  · intro s hinit r hr
    rw [hinit.2] at hr
    cases hr
  · exact fun s cmd hall hg => rules_step (fun _ h => h) hall hg

/-- **Rules of the repository decide.** In every state that migrations and
    `seed-rules` lead to, in any order, with any faults and starting from a
    database without rules, evaluating any of the stored rules on any order
    at any time returns a decision: no order fails for its rules. -/
theorem administered_rules_decide {rt : Runtime} (hrt : rt.Documented) (hs : machine.Reachable s)
    {rules : List EnrichmentRule} (hrules : ∀ r ∈ rules, r ∈ s.db.rules.rows) {now : DateTime}
    (hnow : now.utcoffset = some 0) (o : ExternalOrder) :
    evaluate rt o rules now = .ok (decisionOf o now (matchingRules rt o now rules)) :=
  evaluate_of_sound hrt (DateTime.asUtcInstant_utc hnow)
    (fun r hr => ((isSeeded_of_reachable hs r (hrules r hr)).wellMade rt).sound) o

/-! ## Nothing else changes -/

/-- An id that the commands may write or delete: those of the baseline
    rules, and all that start as the ids of a migration do. A downgrade
    deletes by this start, whoever wrote the rule. -/
def IsOurs (id : String) : Prop :=
  id = "RULE-DEST-ES-001" ∨ id = "RULE-ORIGIN-ROMA-002" ∨ "BULK-RULE-".toList <+: id.toList ∨
    "LTAIL-RULE-".toList <+: id.toList

/-- The database differs from `db` only in rules with such ids. -/
structure OthersKept (db db' : Database) : Prop where
  tables : db' = { db with rules := db'.rules }
  rules : ∀ id, ¬ IsOurs id → db'.rules.find? id = db.rules.find? id

theorem not_prefix_of_mem {m : SeedMigration} {before id : String} (hm : (m, before) ∈ migrations)
    (hid : ¬ "BULK-RULE-".toList <+: id.toList) (hid' : ¬ "LTAIL-RULE-".toList <+: id.toList) :
    ¬ before.toList <+: id.toList := by
  rcases List.mem_cons.mp hm with h | h
  · rw [(Prod.mk.inj h).2]
    exact hid
  · rw [(Prod.mk.inj (List.mem_singleton.mp h)).2]
    exact hid'

/-- The migrations leave alone the ids that do not start as theirs. -/
theorem find?_migrated {id : String} (hid : ¬ "BULK-RULE-".toList <+: id.toList)
    (hid' : ¬ "LTAIL-RULE-".toList <+: id.toList) {m : SeedMigration} {before : String}
    (hm : (m, before) ∈ migrations) {db : Database} :
    (∀ now db', m.upgrade now db = .ok db' → db'.rules.find? id = db.rules.find? id) ∧
      (m.downgrade db).rules.find? id = db.rules.find? id := by
  have hnot := not_prefix_of_mem hm hid hid'
  exact ⟨fun _ _ h => SeedMigration.find?_upgrade (numbers_of_mem hm) hnot h,
    SeedMigration.find?_downgrade (numbers_of_mem hm) hnot⟩

section baseline

variable (t : Table EnrichmentRule EnrichmentRule.ruleId) (now : DateTime)

/-- Both baseline rules are stored as they are. -/
theorem find?_baseline : ∀ r ∈ baselineRules now,
    (t.upsertAll (baselineRules now)).find? r.ruleId = some r := by
  intro r hr
  rw [Table.find?_upsertAll]
  rcases List.mem_cons.mp hr with rfl | hr
  · rfl
  · rw [List.mem_singleton.mp hr]
    rfl

theorem find?_not_baseline {id : String} (h : id ≠ "RULE-DEST-ES-001")
    (h' : id ≠ "RULE-ORIGIN-ROMA-002") :
    (t.upsertAll (baselineRules now)).find? id = t.find? id := by
  have hnone : (baselineRules now).filter (fun r => decide (r.ruleId = id)) = [] := by
    refine List.filter_eq_nil_iff.mpr fun r hr heq => ?_
    have hid := of_decide_eq_true heq
    rcases List.mem_cons.mp hr with rfl | hr
    · exact h hid.symm
    · rw [List.mem_singleton.mp hr] at hid
      exact h' hid.symm
  rw [Table.find?_upsertAll, hnone]
  rfl

end baseline

theorem othersKept_step {db : Database} (hg : guard s cmd) (h : OthersKept db s.db) :
    OthersKept db (step s cmd).db := by
  refine db_step_rule hg h ?_ ?_ ?_
  · intro m before now db₁ db₂ hm _ hkept hup
    obtain ⟨_, _, _, hsame⟩ := SeedMigration.rows_upgrade (numbers_of_mem hm) hup
    refine ⟨by rw [hsame, hkept.tables], ?_⟩
    intro id hid
    simp only [IsOurs, not_or] at hid
    rw [(find?_migrated hid.2.2.1 hid.2.2.2 hm).1 now db₂ hup, hkept.rules id]
    simpa only [IsOurs, not_or] using hid
  · intro m before db₁ hm hkept
    refine ⟨by rw [SeedMigration.downgrade, hkept.tables], ?_⟩
    intro id hid
    simp only [IsOurs, not_or] at hid
    rw [(find?_migrated hid.2.2.1 hid.2.2.2 hm).2, hkept.rules id]
    simpa only [IsOurs, not_or] using hid
  · intro c _ _
    refine ⟨by rw [h.tables], ?_⟩
    intro id hid
    simp only [IsOurs, not_or] at hid
    show (s.db.rules.upsertAll (baselineRules c.now)).find? id = _
    rw [find?_not_baseline _ _ hid.1 hid.2.1, h.rules id]
    simpa only [IsOurs, not_or] using hid

/-! ## The baseline rules stay -/

/-- The baseline rules are stored as of `t`, which is not in the future. -/
structure BaselineAt (s : Administration) (t : DateTime) : Prop where
  past : t.instant ≤ s.time
  stored : ∀ r ∈ baselineRules t, s.db.rules.find? r.ruleId = some r

/-- The command is a `seed-rules` that writes. -/
def Writes (s : Administration) (cmd : Command) : Prop :=
  ∃ c, cmd = .seed c ∧ (seedRules c s.db).1 = .ok seededLine

theorem skippedLine_ne (n : Nat) : skippedLine n ≠ seededLine := by
  intro h
  have hsecond : (skippedLine n).toList[1]? = seededLine.toList[1]? := by rw [h]
  unfold skippedLine at hsecond
  rw [String.toList_append, String.toList_append, List.append_assoc] at hsecond
  exact absurd hsecond (by simp [seededLine])

theorem baselineAt_of_writes {c : SeedCall} (hwrites : (seedRules c s.db).1 = .ok seededLine) :
    BaselineAt (step s (.seed c)) c.now := by
  rcases seedRules_cases c s.db with ⟨e, hres, _⟩ | ⟨hres, _⟩ | ⟨hres, _⟩
  · rw [hres] at hwrites
    cases hwrites
  · rw [hres] at hwrites
    exact absurd (Except.ok.inj hwrites) (skippedLine_ne _)
  · refine ⟨le_refl _, ?_⟩
    intro r hr
    show (seedRules c s.db).2.rules.find? r.ruleId = some r
    rw [hres]
    exact find?_baseline s.db.rules c.now r hr

theorem time_le_step (h : Forward s cmd) : s.time ≤ (step s cmd).time := by
  cases cmd with
  | upgrade clock => exact le_trans h.1 h.2
  | downgrade => exact le_refl _
  | seed c => exact le_trans h.1 h.2

theorem baseline_not_migrated {now : DateTime} {r : EnrichmentRule} (hr : r ∈ baselineRules now) :
    ¬ "BULK-RULE-".toList <+: r.ruleId.toList ∧ ¬ "LTAIL-RULE-".toList <+: r.ruleId.toList := by
  have hids : r.ruleId ∈ ["RULE-DEST-ES-001", "RULE-ORIGIN-ROMA-002"] :=
    List.mem_map_of_mem (f := EnrichmentRule.ruleId) hr
  rcases List.mem_cons.mp hids with hid | hid
  · rw [hid]
    decide
  · rw [List.mem_singleton.mp hid]
    decide

/-- The baseline rules stay, as long as no command writes them again. -/
theorem BaselineAt.step {t : DateTime} (h : BaselineAt s t) (hg : forward.guard s cmd) :
    (¬ Writes s cmd → BaselineAt (step s cmd) t) ∧ ∃ t', BaselineAt (step s cmd) t' := by
  have hquiet : ¬ Writes s cmd → BaselineAt (Administration.step s cmd) t := by
    intro hno
    refine ⟨le_trans h.past (time_le_step hg.2), ?_⟩
    refine db_step_rule (P := fun db => ∀ r ∈ baselineRules t, db.rules.find? r.ruleId = some r)
      hg.1 h.stored ?_ ?_ ?_
    · intro m before now db db' hm _ hdb hup r hr
      obtain ⟨hbulk, hlong⟩ := baseline_not_migrated hr
      rw [(find?_migrated hbulk hlong hm).1 now db' hup]
      exact hdb r hr
    · intro m before db hm hdb r hr
      obtain ⟨hbulk, hlong⟩ := baseline_not_migrated hr
      rw [(find?_migrated hbulk hlong hm).2]
      exact hdb r hr
    · intro c hcmd hwrites
      exact absurd ⟨c, hcmd, hwrites⟩ hno
  refine ⟨hquiet, ?_⟩
  by_cases hwrites : Writes s cmd
  · obtain ⟨c, rfl, hc⟩ := hwrites
    exact ⟨c.now, baselineAt_of_writes hc⟩
  · exact ⟨t, hquiet hwrites⟩

theorem BaselineAt.quiet_run {t : DateTime} {cmds : List Command} (h : BaselineAt s t)
    (hl : forward.Legal s cmds) (hquiet : ∀ p ∈ forward.visits s cmds, ¬ Writes p.1 p.2) :
    BaselineAt (forward.run s cmds) t := by
  induction cmds generalizing s with
  | nil => exact h
  | cons cmd cmds ih =>
    obtain ⟨hg, hl'⟩ := (forward.legal_cons s cmd cmds).mp hl
    rw [forward.visits_cons, List.forall_mem_cons] at hquiet
    exact ih ((h.step hg).1 hquiet.1) hl' hquiet.2

/-- While they are stored, at least one rule is active. -/
theorem BaselineAt.active {t : DateTime} (h : BaselineAt s t) (scan : ScanOrder EnrichmentRule)
    {now : DateTime} (hnow : s.time ≤ now.instant) : 0 < activeRules scan now s.db := by
  have hfirst : ∃ r, (baselineRules t).head? = some r := ⟨_, rfl⟩
  obtain ⟨r, hr⟩ := hfirst
  have hstored := h.stored r (List.mem_of_head? hr)
  have hrow := ((Table.find?_eq_some_iff _ _ _).mp hstored).1
  refine List.length_pos_of_mem (mem_listActiveRules.mpr ⟨hrow, ?_⟩)
  obtain rfl := Option.some.inj hr
  have hstarted : t ≤ now := (DateTime.le_def t now).mpr (le_trans h.past hnow)
  refine ⟨rfl, ?_, rfl⟩
  show (decide (t ≤ now) && true) = true
  rw [decide_eq_true hstarted]
  rfl

/-- **Runs of `seed-rules`.** Take any commands before and after a
    `seed-rules` that wrote its rules, no downgrade below the initial schema
    among them, and a clock that does not go back. Then at the end other
    tables are as before the run, and so is every rule whose id is neither
    of the baseline nor starts with `BULK-RULE-` or `LTAIL-RULE-`. A
    `seed-rules` without `--force` is skipped, and changes nothing, if it
    can query, and it counts the rules that `validate-rules` counts. And the
    baseline rules are stored as they were written, unless a later
    `seed-rules` has written them. -/
theorem seed_rules_runs {s₀ : Administration} {before after : List Command} {c : SeedCall}
    (hl : forward.Legal s₀ (before ++ .seed c :: after))
    (hwrites : (seedRules c (forward.run s₀ before).db).1 = .ok seededLine) :
    let seeded := forward.run s₀ (before ++ [.seed c])
    let s := forward.run s₀ (before ++ .seed c :: after)
    OthersKept s₀.db s.db ∧
    (∀ c' : SeedCall, forward.guard s (.seed c') → c'.force = false → c'.queryFault = none →
      ∃ n, 0 < n ∧ seedRules c' s.db = (.ok (skippedLine n), s.db) ∧
        validateRules c'.scan c'.checkedAt none s.db = .ok ("active_rules=" ++ toString n)) ∧
    ((∀ p ∈ forward.visits seeded after, ¬ Writes p.1 p.2) →
      ∀ r ∈ baselineRules c.now, s.db.rules.find? r.ruleId = some r) := by
  intro seeded s
  have hsplit : before ++ .seed c :: after = before ++ [.seed c] ++ after := by simp
  have hrun : s = forward.run seeded after := by
    show forward.run s₀ (before ++ .seed c :: after) = _
    rw [hsplit, forward.run_append]
  have hstart : BaselineAt seeded c.now := by
    have hstep : seeded = step (forward.run s₀ before) (.seed c) := forward.run_append s₀ before _
    rw [hstep]
    exact baselineAt_of_writes hwrites
  have hlafter : forward.Legal seeded after := by
    rw [hsplit] at hl
    exact ((forward.legal_append s₀ _ after).mp hl).2
  refine ⟨?_, ?_, ?_⟩
  · exact forward.run_induction (I := fun x => OthersKept s₀.db x.db)
      (fun _ _ h hg => othersKept_step hg.1 h) ⟨rfl, fun _ _ => rfl⟩ hl
  · intro c' hg hforce hquery
    obtain ⟨t, ht⟩ : ∃ t, BaselineAt s t := by
      rw [hrun]
      exact forward.run_induction (I := fun x => ∃ t, BaselineAt x t)
        (fun _ _ ⟨_, h⟩ hg => (h.step hg).2) ⟨c.now, hstart⟩ hlafter
    have hactive := ht.active c'.scan hg.2.1
    have hno : ¬ c'.Wants s.db := by
      rintro (hnone | hyes)
      · omega
      · rw [hforce] at hyes
        cases hyes
    rcases seedRules_cases c' s.db with ⟨e, _, hwants⟩ | ⟨hres, _⟩ | ⟨_, hwants⟩
    · exact absurd (hwants hquery) hno
    · exact ⟨_, hactive, hres, rfl⟩
    · exact absurd hwants hno
  · intro hquiet
    rw [hrun]
    exact (hstart.quiet_run hlafter hquiet).stored

/-! ### Samples -/

/-- An empty database before the first migration. -/
def emptyDatabase : Administration := ⟨⟨.initial, Database.fresh .empty⟩, 0⟩

def firstSeed : SeedCall := { force := false, checkedAt := Sample.nine, now := Sample.nine }

theorem legal_firstSeed : forward.Legal emptyDatabase [.seed firstSeed] := by
  intro p hp
  rw [List.mem_singleton.mp hp]
  exact ⟨⟨rfl, rfl⟩, by decide, by decide⟩

theorem seed_rules_runs_twice :
    let s := forward.run emptyDatabase [.seed firstSeed]
    ∃ n, 0 < n ∧ seedRules { firstSeed with checkedAt := Sample.ten, now := Sample.ten } s.db =
      (.ok (skippedLine n), s.db) := by
  intro s
  have hwrites : (seedRules firstSeed (forward.run emptyDatabase []).db).1 = .ok seededLine := by
    rfl
  have hl : forward.Legal emptyDatabase ([] ++ .seed firstSeed :: []) := legal_firstSeed
  obtain ⟨n, hn, hskipped, _⟩ := (seed_rules_runs hl hwrites).2.1
    { firstSeed with checkedAt := Sample.ten, now := Sample.ten }
      ⟨⟨rfl, rfl⟩, by decide, by decide⟩ rfl rfl
  exact ⟨n, hn, hskipped⟩

theorem administered_rules_decide_sample :
    let s := machine.run emptyDatabase [.seed firstSeed]
    s.db.rules.rows.length = 2 ∧ ∃ d, evaluate Sample.runtime (Sample.order "ORD-1" Sample.nine)
      s.db.rules.rows Sample.ten = .ok d := by
  intro s
  have hs : machine.Reachable s := ⟨emptyDatabase, [.seed firstSeed], ⟨rfl, rfl⟩,
    fun p hp => (legal_firstSeed p hp).1, rfl⟩
  exact ⟨rfl, _, administered_rules_decide Sample.documented_runtime hs (fun _ hr => hr) rfl _⟩

end Administration

end RulesEnrichment
