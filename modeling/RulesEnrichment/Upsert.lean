import RulesEnrichment.ProcessStep

/-! # Writing rules

    `upsert_many` in a unit of work of its own. The session finds the rows
    that are stored, not the ones it has only added, so an id that is new
    and repeated in the list is inserted twice, and the commit raises.
    Everywhere else a list of upserts is what is written
    (`applyAll_upsertMany`), and the last rule of an id stays. -/

namespace RulesEnrichment

open KeyedTable UnitOfWork

namespace EnrichmentRuleRepository

/-- `with uow: uow.rules.upsert_many(rules); uow.commit()` -/
def upsertAndCommit (db : Database) (rules : List EnrichmentRule) : Except PyErr Unit × Database :=
  DbSession.commit (upsertMany (Session.enter db) rules) none db

/-! ## What is written -/

/-- An `INSERT` where the session finds no rule of the id, else an `UPDATE`. -/
def upsertWrite (stored : Table EnrichmentRule EnrichmentRule.ruleId) (r : EnrichmentRule) : Write :=
  match stored.find? r.ruleId with
  | none => .insertRule r
  | some _ => .updateRule r

theorem upsertMany_eq (s : DbSession) (rules : List EnrichmentRule) :
    upsertMany s rules = ⟨s.snapshot, s.writes ++ rules.map (upsertWrite s.snapshot.rules)⟩ := by
  induction rules generalizing s with
  | nil => simp [upsertMany]
  | cons r rules ih =>
    unfold upsertMany
    rcases hf : s.snapshot.rules.find? r.ruleId with _ | stored <;> simp [ih, upsertWrite, hf]

/-- The rules of the list whose id is not stored. -/
def newRules (stored : Table EnrichmentRule EnrichmentRule.ruleId) (rules : List EnrichmentRule) :
    List EnrichmentRule :=
  rules.filter fun r => (stored.find? r.ruleId).isNone

section

variable {stored : Table EnrichmentRule EnrichmentRule.ruleId} {r : EnrichmentRule}
  {rules : List EnrichmentRule}

theorem upsertWrite_of_new (h : stored.find? r.ruleId = none) :
    upsertWrite stored r = .insertRule r := by
  unfold upsertWrite
  rw [h]

theorem upsertWrite_of_stored (h : stored.find? r.ruleId ≠ none) :
    upsertWrite stored r = .updateRule r := by
  obtain ⟨x, hx⟩ := Option.ne_none_iff_exists'.mp h
  unfold upsertWrite
  rw [hx]

theorem mem_newRules :
    r ∈ newRules stored rules ↔ r ∈ rules ∧ stored.find? r.ruleId = none := by
  simp [newRules]

theorem newRules_cons_of_new (h : stored.find? r.ruleId = none) :
    newRules stored (r :: rules) = r :: newRules stored rules :=
  List.filter_cons_of_pos (by simp [h])

theorem newRules_cons_of_stored (h : stored.find? r.ruleId ≠ none) :
    newRules stored (r :: rules) = newRules stored rules :=
  List.filter_cons_of_neg (by simp [h])

end

theorem applyAll_insertRule {r : EnrichmentRule} {db : Database} {ws : List Write}
    (h : db.rules.find? r.ruleId = none) : applyAll Write.apply (.insertRule r :: ws) db =
      applyAll Write.apply ws { db with rules := db.rules.upsert r } := by
  rcases hi : db.rules.insert? r with _ | t
  · exact absurd h ((Table.insert?_eq_none_iff _ r).mp hi)
  · refine applyAll_cons_ok Write.apply ?_ ws
    simp [Write.apply, hi, Table.upsert_of_insert? hi]

theorem applyAll_insertRule_taken {r : EnrichmentRule} {db : Database} {ws : List Write}
    (h : db.rules.find? r.ruleId ≠ none) :
    applyAll Write.apply (.insertRule r :: ws) db = .error (duplicateKey "enrichment_rules") := by
  have hi := (Table.insert?_eq_none_iff _ r).mpr h
  simp [applyAll, Write.apply, hi]

theorem applyAll_updateRule {r : EnrichmentRule} {db : Database} {ws : List Write}
    (h : db.rules.find? r.ruleId ≠ none) : applyAll Write.apply (.updateRule r :: ws) db =
      applyAll Write.apply ws { db with rules := db.rules.upsert r } := by
  rw [Table.upsert_of_find? h]
  rfl

/-- The flush goes through exactly if no new id is repeated, nor taken by
    now, and it then upserts the rules in turn. -/
theorem applyAll_upsertMany {stored : Table EnrichmentRule EnrichmentRule.ruleId}
    {rules : List EnrichmentRule} {db db' : Database}
    (hstored : ∀ id, stored.find? id ≠ none → db.rules.find? id ≠ none) :
    applyAll Write.apply (rules.map (upsertWrite stored)) db = .ok db' ↔
      ((newRules stored rules).map (·.ruleId)).Nodup ∧
        (∀ r ∈ newRules stored rules, db.rules.find? r.ruleId = none) ∧
        db' = { db with rules := db.rules.upsertAll rules } := by
  -- on the list; each rule that goes through is stored for the rest
  induction rules generalizing db with
  | nil => simp [newRules, Table.upsertAll, eq_comm]
  | cons r rules ih =>
    have hkept : ∀ id, stored.find? id ≠ none → (db.rules.upsert r).find? id ≠ none := by
      intro id hid hnone
      exact hstored id hid ((Table.find?_upsert_eq_none_iff _ r).mp hnone).2
    have hrest : applyAll Write.apply (rules.map (upsertWrite stored))
        { db with rules := db.rules.upsert r } = .ok db' ↔ _ := ih hkept
    rw [List.map_cons]
    by_cases hf : stored.find? r.ruleId = none
    · -- a new id, which must still be free, and must not come again
      rw [upsertWrite_of_new hf, newRules_cons_of_new hf, List.map_cons, List.nodup_cons,
        List.forall_mem_cons]
      by_cases hfree : db.rules.find? r.ruleId = none
      · rw [applyAll_insertRule hfree, hrest]
        simp only [Table.find?_upsert_eq_none_iff, List.mem_map, not_exists, not_and]
        constructor
        · intro h
          obtain ⟨hnodup, hothers, hdb'⟩ := h
          exact ⟨⟨fun y hy => (hothers y hy).1, hnodup⟩, ⟨hfree, fun y hy => (hothers y hy).2⟩, hdb'⟩
        · intro h
          obtain ⟨⟨hnot, hnodup⟩, ⟨_, hothers⟩, hdb'⟩ := h
          exact ⟨hnodup, fun y hy => ⟨hnot y hy, hothers y hy⟩, hdb'⟩
      · rw [applyAll_insertRule_taken hfree]
        simp [hfree]
    · -- a stored id: nothing new, and the row is rewritten
      have hother : ∀ y ∈ newRules stored rules, y.ruleId ≠ r.ruleId := by
        intro y hy heq
        have hy := (mem_newRules.mp hy).2
        rw [heq] at hy
        exact hf hy
      rw [upsertWrite_of_stored hf, newRules_cons_of_stored hf,
        applyAll_updateRule (hstored r.ruleId hf), hrest]
      simp only [Table.find?_upsert_eq_none_iff]
      constructor
      · intro h
        obtain ⟨hnodup, hfree, hdb'⟩ := h
        exact ⟨hnodup, fun y hy => (hfree y hy).2, hdb'⟩
      · intro h
        obtain ⟨hnodup, hfree, hdb'⟩ := h
        exact ⟨hnodup, fun y hy => ⟨hother y hy, hfree y hy⟩, hdb'⟩

theorem upsertAndCommit_eq_ok_iff {db db' : Database} {rules : List EnrichmentRule} :
    upsertAndCommit db rules = (.ok (), db') ↔
      ((newRules db.rules rules).map (·.ruleId)).Nodup ∧
        db' = { db with rules := db.rules.upsertAll rules } := by
  unfold upsertAndCommit DbSession.commit
  rw [upsertMany_eq, commit_ok_iff]
  show applyAll Write.apply (rules.map (upsertWrite db.rules)) db = .ok db' ∧ _ ↔ _
  rw [applyAll_upsertMany fun _ h => h]
  have hfree : ∀ r ∈ newRules db.rules rules, db.rules.find? r.ruleId = none :=
    fun r hr => (mem_newRules.mp hr).2
  constructor
  · intro h
    obtain ⟨⟨hnodup, _, hdb'⟩, _⟩ := h
    exact ⟨hnodup, hdb'⟩
  · intro h
    obtain ⟨hnodup, hdb'⟩ := h
    exact ⟨⟨hnodup, hfree, hdb'⟩, rfl⟩

/-! ## The last version stays -/

/-- The commit goes through; under every id of the list the table then has
    the last rule of this id, under the others what it had; nothing else
    changes, and the same list once more changes nothing. -/
def KeepsLast (db : Database) (rules : List EnrichmentRule) : Prop :=
  ∃ db', upsertAndCommit db rules = (.ok (), db') ∧
    (∀ id, db'.rules.find? id =
      ((rules.filter fun r => decide (r.ruleId = id)).getLast?).or (db.rules.find? id)) ∧
    db' = { db with rules := db'.rules } ∧
    upsertAndCommit db' rules = (.ok (), db')

/-- **Upsert.** The last version of every rule stays exactly if no id that
    is not stored yet occurs twice in the list. -/
theorem keepsLast_iff (db : Database) (rules : List EnrichmentRule) :
    KeepsLast db rules ↔
      ((rules.filter fun r => (db.rules.find? r.ruleId).isNone).map (·.ruleId)).Nodup := by
  constructor
  · intro h
    obtain ⟨db', hcommit, _⟩ := h
    exact (upsertAndCommit_eq_ok_iff.mp hcommit).1
  · intro hnodup
    refine ⟨_, upsertAndCommit_eq_ok_iff.mpr ⟨hnodup, rfl⟩, ?_, rfl, ?_⟩
    · intro id
      exact Table.find?_upsertAll db.rules rules id
    · -- all the ids are stored now
      have hnone : newRules (db.rules.upsertAll rules) rules = [] := by
        refine List.eq_nil_iff_forall_not_mem.mpr ?_
        intro r hr
        obtain ⟨hin, hnone⟩ := mem_newRules.mp hr
        exact Table.find?_upsertAll_ne_none hin hnone
      refine upsertAndCommit_eq_ok_iff.mpr ⟨?_, ?_⟩
      · rw [hnone]
        exact List.nodup_nil
      · rw [Table.upsertAll_upsertAll]

/-- A new rule, and a second version of it. -/
theorem repeated_new_rule_refused :
    let rules := [Sample.rule "R1" "ES01", Sample.rule "R1" "ES02"]
    upsertAndCommit (Database.fresh .empty) rules =
        (.error (duplicateKey "enrichment_rules"), Database.fresh .empty) ∧
      ¬ KeepsLast (Database.fresh .empty) rules := by
  intro rules
  have hcommit : upsertAndCommit (Database.fresh .empty) rules =
      (.error (duplicateKey "enrichment_rules"), Database.fresh .empty) := rfl
  refine ⟨hcommit, ?_⟩
  intro h
  obtain ⟨db', hok, _⟩ := h
  rw [hcommit] at hok
  cases hok

end EnrichmentRuleRepository

end RulesEnrichment
