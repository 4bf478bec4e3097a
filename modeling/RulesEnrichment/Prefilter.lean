import RulesEnrichment.Cache

/-! # The query and the evaluator

    Validity is tested twice: the query tests it on instants, and
    `is_valid_at` again, after converting `now` and both bounds to UTC.
    The conversion raises where the UTC date has no year between 1 and
    9999; apart from that the two tests agree, so it does not matter to the
    evaluation that the query has left out rows. -/

namespace RulesEnrichment

open StableSort UnitOfWork

/-- What `astimezone` raises. -/
def dateOutOfRange : PyErr := ⟨.OverflowError, "date value out of range"⟩

namespace Prefilter

/-- The rules that `list_active_rules` returns for the codes of the order. -/
def listed (db : Database) (order : ExternalOrder) (now : DateTime) : List EnrichmentRule :=
  EnrichmentRuleRepository.listActiveRules (Session.enter db) .physical now
    (some order.clientCode) (some order.facilityCode) order.zoneCode

/-- All rules of the table that meet the same conditions on the codes. -/
def inScope (db : Database) (order : ExternalOrder) : List EnrichmentRule :=
  db.rules.rows.filter (EnrichmentRuleRepository.scopeFilter (some order.clientCode)
    (some order.facilityCode) order.zoneCode)

/-- `is_valid_at` raises. -/
def RaisesAt (now : DateTime) (rule : EnrichmentRule) : Prop :=
  (rule.isValidAt now).isOk = false

/-! ## What the validity test raises -/

theorem asUtcInstant_error {d : DateTime} {e : PyErr} (h : d.asUtcInstant = .error e) :
    e = dateOutOfRange := by
  unfold DateTime.asUtcInstant at h
  split at h
  · cases h
  · split at h
    · cases h
    · exact (Except.error.inj h).symm

theorem optionalUtc_error {d : Option DateTime} {e : PyErr} (h : optionalUtc d = .error e) :
    e = dateOutOfRange := by
  rcases d with _ | d
  · cases h
  · rcases hd : d.asUtcInstant with err | i
    · have herr := asUtcInstant_error hd
      simp only [optionalUtc, hd, Except.map, Except.error.injEq] at h
      rw [← h, herr]
    · simp [optionalUtc, hd, Except.map] at h

theorem isValidAt_error {rule : EnrichmentRule} {now : DateTime} {e : PyErr}
    (h : rule.isValidAt now = .error e) : e = dateOutOfRange := by
  unfold EnrichmentRule.isValidAt at h
  split at h
  · next e' hnow =>
    rw [← Except.error.inj h]
    exact asUtcInstant_error hnow
  · split at h
    · next e' hfrom =>
      rw [← Except.error.inj h]
      exact optionalUtc_error hfrom
    · split at h
      · next e' hto =>
        rw [← Except.error.inj h]
        exact optionalUtc_error hto
      · -- from here on nothing raises
        split at h
        · cases h
        · split at h <;> cases h

theorem not_raisesAt_iff {now : DateTime} {rule : EnrichmentRule} :
    ¬ RaisesAt now rule ↔ ∃ b, rule.isValidAt now = .ok b := by
  unfold RaisesAt
  rcases rule.isValidAt now with e | b <;> simp [Except.isOk, Except.toBool]

section

variable {rt : Runtime} {order : ExternalOrder} {now : DateTime}

/-- One rule on which the validity test raises is enough. -/
theorem validRules_of_raises {rules : List EnrichmentRule} (h : ∃ r ∈ rules, RaisesAt now r) :
    validRules now rules = .error dateOutOfRange := by
  induction rules with
  | nil => simp at h
  | cons r rules ih =>
    unfold validRules
    rcases hr : r.isValidAt now with e | b
    · rw [isValidAt_error hr]
    · -- the rule that raises is in the tail
      obtain ⟨x, hx, hraises⟩ := h
      have hrest : ∃ x ∈ rules, RaisesAt now x := by
        rcases List.mem_cons.mp hx with rfl | hx
        · exact absurd hraises (not_raisesAt_iff.mpr ⟨b, hr⟩)
        · exact ⟨x, hx, hraises⟩
      simp [ih hrest, Except.map]

theorem evaluate_of_raises {rules : List EnrichmentRule} (h : ∃ r ∈ rules, RaisesAt now r) :
    evaluate rt order rules now = .error dateOutOfRange := by
  unfold evaluate
  rw [validRules_of_raises h]

/-! ## The two tests agree -/

/-- Of the rules in scope, the query keeps those that are active and
    within their window. -/
theorem listed_eq (db : Database) : listed db order now =
    sortBy EnrichmentRule.priority ((inScope db order).filter fun r =>
      r.isActive && EnrichmentRuleRepository.windowFilter now r) := by
  unfold listed inScope EnrichmentRuleRepository.listActiveRules
  rw [List.filter_filter]
  rfl

theorem mem_inScope_of_listed {db : Database} {r : EnrichmentRule} (h : r ∈ listed db order now) :
    r ∈ inScope db order := by
  rw [listed_eq, mem_sortBy] at h
  exact List.mem_of_mem_filter h

/-- Where the validity test does not raise, it keeps the same rules of the
    scope whether or not the query has run before. -/
theorem filter_listed {db : Database} (h : ∀ r ∈ inScope db order, ¬ RaisesAt now r) :
    (listed db order now).filter (fun r => r.isValidAt now = .ok true) =
      sortBy EnrichmentRule.priority
        ((inScope db order).filter fun r => r.isValidAt now = .ok true) := by
  rw [listed_eq, filter_sortBy, List.filter_filter]
  refine congrArg (sortBy EnrichmentRule.priority) (List.filter_congr ?_)
  intro r hr
  obtain ⟨b, hb⟩ := not_raisesAt_iff.mp (h r hr)
  have hvalid := isValidAt_eq hb
  rw [hb, ← hvalid]
  rcases b with _ | _ <;> rfl

theorem evaluate_listed_of_convert {db : Database} (h : ∀ r ∈ inScope db order, ¬ RaisesAt now r) :
    evaluate rt order (listed db order now) now = evaluate rt order (inScope db order) now := by
  have hscope : ∀ r ∈ inScope db order, ∃ b, r.isValidAt now = .ok b :=
    fun r hr => not_raisesAt_iff.mp (h r hr)
  have hlisted : ∀ r ∈ listed db order now, ∃ b, r.isValidAt now = .ok b :=
    fun r hr => hscope r (mem_inScope_of_listed hr)
  -- the loop of the evaluation then goes over the same list, and raises the same
  unfold evaluate
  rw [validRules_of_all hlisted, validRules_of_all hscope, filter_listed h]
  simp only [sortBy_sortBy]

end

/-- **The pre-filter.** Evaluating the rules that the query returns gives
    the decision, or the error, of evaluating all rules in scope, unless
    the validity test raises on rules that the query leaves out and on none
    that it returns. The evaluation of all rules then ends with that
    error. -/
theorem prefilter (rt : Runtime) (db : Database) (order : ExternalOrder) (now : DateTime) :
    (((∃ r ∈ inScope db order, RaisesAt now r) → ∃ r ∈ listed db order now, RaisesAt now r) →
      evaluate rt order (listed db order now) now = evaluate rt order (inScope db order) now) ∧
    ((∃ r ∈ inScope db order, RaisesAt now r) →
      evaluate rt order (inScope db order) now = .error dateOutOfRange) := by
  refine ⟨fun h => ?_, evaluate_of_raises⟩
  by_cases hraises : ∃ r ∈ inScope db order, RaisesAt now r
  · rw [evaluate_of_raises hraises, evaluate_of_raises (h hraises)]
  · refine evaluate_listed_of_convert ?_
    intro r hr hr'
    exact hraises ⟨r, hr, hr'⟩

/-! ### A rule that was to be valid for ever

    Its end is the last second of the year 9999, five hours west of UTC,
    which is in the year 10000 in UTC. It has been deactivated since. -/

def endOfTime : DateTime where
  year := 9999
  month := 12
  day := 31
  hour := 23
  minute := 59
  second := 59
  utcoffset := some (-18000000000)

def deactivated : EnrichmentRule :=
  { Sample.rule "R1" "ES01" with isActive := false, validTo := some endOfTime }

theorem deactivated_rule_raises :
    let db := Database.fresh ⟨[deactivated], by decide⟩
    let order := Sample.order "ORD-1" Sample.nine
    evaluate Sample.runtime order (listed db order Sample.ten) Sample.ten =
        .ok (decisionOf order Sample.ten []) ∧
      evaluate Sample.runtime order (inScope db order) Sample.ten = .error dateOutOfRange :=
  ⟨rfl, rfl⟩

end Prefilter

end RulesEnrichment
