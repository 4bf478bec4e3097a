import RulesEnrichment.Model.Specification
import RulesEnrichment.Lib.StableSort

/-! # The rule engine

    `EnrichmentRule.is_valid_at`, `RuleEvaluationService.evaluate`,
    `EnrichmentHashService.compute` and the payload builder, with the one
    lemma the rest of the development uses about evaluation:
    `evaluate_eq_ok_iff` says when it returns and what.

    The decision is described through `matchingRules`, the rules that are
    valid and whose conditions hold, in ascending priority; `lookup_merged`
    says which rule gives an enriched field its value. -/

namespace RulesEnrichment

open Python StableSort

/-! ## Validity -/

/-- `_as_utc` of an optional bound. -/
def optionalUtc : Option DateTime → Except PyErr (Option Int)
  | none => .ok none
  | some d => d.asUtcInstant.map some

/-- `now < bound`, for a bound that may be absent. -/
def beforeBound (now : Int) : Option Int → Bool
  | none => false
  | some bound => now < bound

/-- `now > bound`, for a bound that may be absent. -/
def afterBound (now : Int) : Option Int → Bool
  | none => false
  | some bound => bound < now

/-- `is_valid_at`; the three conversions to UTC come first, and each may
    raise. -/
def EnrichmentRule.isValidAt (rule : EnrichmentRule) (now : DateTime) : Except PyErr Bool :=
  match now.asUtcInstant with
  | .error e => .error e
  | .ok nowUtc =>
    match optionalUtc rule.validFrom with
    | .error e => .error e
    | .ok validFromUtc =>
      match optionalUtc rule.validTo with
      | .error e => .error e
      | .ok validToUtc =>
        if beforeBound nowUtc validFromUtc then .ok false
        else if afterBound nowUtc validToUtc then .ok false
        else .ok rule.isActive

/-! ## Evaluation -/

/-- Whether the rule's conditions hold on the order. -/
def EnrichmentRule.matches (rt : Runtime) (order : ExternalOrder) (rule : EnrichmentRule) :
    Except PyErr Bool :=
  match fromJson rt rule.conditionsJson.toVal with
  | .error e => .error e
  | .ok spec => spec.isSatisfiedBy rt order

/-- `[rule for rule in rules if rule.is_valid_at(now)]` -/
def validRules (now : DateTime) : List EnrichmentRule → Except PyErr (List EnrichmentRule)
  | [] => .ok []
  | rule :: rules =>
    match rule.isValidAt now with
    | .error e => .error e
    | .ok valid => (validRules now rules).map fun rs => if valid then rule :: rs else rs

def EnrichmentRule.appliedDetail (rule : EnrichmentRule) : AppliedRule where
  ruleId := rule.ruleId
  ruleType := rule.ruleType
  description := "matched priority " ++ toString rule.priority

/-- What the loop of `evaluate` has gathered. -/
structure Gathered where
  matchedRules : List String
  appliedDetails : List AppliedRule
  enrichedFields : JsonObject

def Gathered.start : Gathered := ⟨[], [], .empty⟩

/-- A rule that matched adds its id and its fields. -/
def Gathered.apply (acc : Gathered) (rule : EnrichmentRule) : Gathered where
  matchedRules := acc.matchedRules ++ [rule.ruleId]
  appliedDetails := acc.appliedDetails ++ [rule.appliedDetail]
  enrichedFields := acc.enrichedFields.update rule.enrichmentJson

/-- `for rule in active` -/
def gather (rt : Runtime) (order : ExternalOrder) :
    List EnrichmentRule → Gathered → Except PyErr Gathered
  | [], acc => .ok acc
  | rule :: rules, acc =>
    match rule.matches rt order with
    | .error e => .error e
    | .ok true => gather rt order rules (acc.apply rule)
    | .ok false => gather rt order rules acc

def explanationOf (matchedRules : List String) : String :=
  if matchedRules.isEmpty then "No rules matched"
  else "Matched " ++ toString matchedRules.length ++ " rules"

/-- `RuleEvaluationService.evaluate` -/
def evaluate (rt : Runtime) (order : ExternalOrder) (rules : List EnrichmentRule)
    (now : DateTime) : Except PyErr EnrichmentDecision :=
  match validRules now rules with
  | .error e => .error e
  | .ok active =>
    match gather rt order (sortBy EnrichmentRule.priority active) .start with
    | .error e => .error e
    | .ok acc => .ok {
        orderId := order.orderId
        matchedRules := acc.matchedRules
        enrichedFields := acc.enrichedFields
        decisionTimestamp := now
        explanation := explanationOf acc.matchedRules
        appliedRuleDetails := acc.appliedDetails }

/-! ## Idempotency hash -/

/-- `EnrichmentHashService.compute`, for strings of characters. -/
def computeHash (rt : Runtime) (order : ExternalOrder) (enrichedFields : JsonObject) :
    Except PyErr String :=
  match (PyVal.dict [("order_id", .str order.orderId),
      ("order_updated_at", .str order.updatedAt.isoformat),
      ("enriched_fields", enrichedFields.toVal)]).dumps with
  | .error t => .error ⟨.TypeError, "Object of type " ++ t ++ " is not JSON serializable"⟩
  | .ok canonical => .ok (rt.sha256 canonical)

/-! ## Payload -/

/-- `EnrichmentPayloadBuilder.build` -/
def buildPayload (correlationId sourceSystem : String) (enrichmentVersion : Nat)
    (decision : EnrichmentDecision) : EnrichmentPayload where
  correlationId := correlationId
  sourceSystem := sourceSystem
  enrichmentVersion := enrichmentVersion
  appliedRules := decision.appliedRuleDetails
  enrichedFields := decision.enrichedFields

def AppliedRule.toVal (r : AppliedRule) : PyVal :=
  .dict [("rule_id", .str r.ruleId), ("rule_type", .str r.ruleType),
    ("description", .str r.description)]

/-- `payload_to_dict` -/
def payloadToDict (p : EnrichmentPayload) : PyVal :=
  .dict [("correlation_id", .str p.correlationId), ("source_system", .str p.sourceSystem),
    ("enrichment_version", .int p.enrichmentVersion),
    ("applied_rules", .list (p.appliedRules.map AppliedRule.toVal)),
    ("enriched_fields", p.enrichedFields.toVal)]

/-! ## When evaluation returns, and what -/

/-- The rule neither makes the validity test nor, if it is valid, its
    conditions raise. -/
def EnrichmentRule.Evaluates (rt : Runtime) (order : ExternalOrder) (now : DateTime)
    (rule : EnrichmentRule) : Prop :=
  rule.isValidAt now = .ok false ∨
    (rule.isValidAt now = .ok true ∧ ∃ b, rule.matches rt order = .ok b)

/-- Valid at `now`, and the conditions hold on the order. -/
def EnrichmentRule.applies (rt : Runtime) (order : ExternalOrder) (now : DateTime)
    (rule : EnrichmentRule) : Bool :=
  match rule.isValidAt now, rule.matches rt order with
  | .ok true, .ok true => true
  | _, _ => false

theorem EnrichmentRule.applies_iff {rt : Runtime} {order : ExternalOrder} {now : DateTime}
    {rule : EnrichmentRule} : rule.applies rt order now = true ↔
      rule.isValidAt now = .ok true ∧ rule.matches rt order = .ok true := by
  unfold EnrichmentRule.applies
  split
  · next h₁ h₂ => simp [h₁, h₂]
  · next h => simpa using fun h₁ h₂ => h h₁ h₂

/-- The rules that apply, in ascending priority, ties in the given order. -/
def matchingRules (rt : Runtime) (order : ExternalOrder) (now : DateTime)
    (rules : List EnrichmentRule) : List EnrichmentRule :=
  sortBy EnrichmentRule.priority (rules.filter (·.applies rt order now))

/-- The fields of the rules in turn, later ones overwriting earlier ones. -/
def mergeFields : JsonObject → List EnrichmentRule → JsonObject
  | acc, [] => acc
  | acc, rule :: rules => mergeFields (acc.update rule.enrichmentJson) rules

/-- The decision that lists exactly `matched`. -/
def decisionOf (order : ExternalOrder) (now : DateTime) (matched : List EnrichmentRule) :
    EnrichmentDecision where
  orderId := order.orderId
  matchedRules := matched.map EnrichmentRule.ruleId
  enrichedFields := mergeFields .empty matched
  decisionTimestamp := now
  explanation := explanationOf (matched.map EnrichmentRule.ruleId)
  appliedRuleDetails := matched.map EnrichmentRule.appliedDetail

section evaluation

variable {rt : Runtime} {order : ExternalOrder} {now : DateTime}

theorem validRules_of_all {rules : List EnrichmentRule}
    (h : ∀ r ∈ rules, ∃ b, r.isValidAt now = .ok b) :
    validRules now rules = .ok (rules.filter fun r => r.isValidAt now = .ok true) := by
  induction rules with
  | nil => rfl
  | cons r rules ih =>
    obtain ⟨b, hb⟩ := h r List.mem_cons_self
    have hrest := ih fun r' hr' => h r' (List.mem_cons_of_mem _ hr')
    unfold validRules
    cases b <;> simp [hb, hrest, Except.map]

theorem all_of_validRules {rules active : List EnrichmentRule}
    (h : validRules now rules = .ok active) : ∀ r ∈ rules, ∃ b, r.isValidAt now = .ok b := by
  induction rules generalizing active with
  | nil => simp
  | cons r rules ih =>
    unfold validRules at h
    cases hv : r.isValidAt now with
    | error e => simp [hv] at h
    | ok b =>
      cases hr : validRules now rules with
      | error e => simp [hv, hr, Except.map] at h
      | ok rs =>
        intro r' hr'
        rcases List.mem_cons.mp hr' with rfl | hr'
        · exact ⟨b, hv⟩
        · exact ih hr r' hr'

/-- What the rules of a list gather, given that all of them evaluate. -/
theorem gather_of_all {rules : List EnrichmentRule}
    (h : ∀ r ∈ rules, ∃ b, r.matches rt order = .ok b) (acc : Gathered) :
    gather rt order rules acc =
      .ok ((rules.filter fun r => r.matches rt order = .ok true).foldl Gathered.apply acc) := by
  -- for every accumulator, since a rule that matches changes it
  induction rules generalizing acc with
  | nil => rfl
  | cons r rules ih =>
    obtain ⟨b, hb⟩ := h r List.mem_cons_self
    have hrest := ih fun r' hr' => h r' (List.mem_cons_of_mem _ hr')
    unfold gather
    cases b <;> simp [hb, hrest]

theorem all_of_gather {rules : List EnrichmentRule} {acc acc' : Gathered}
    (h : gather rt order rules acc = .ok acc') :
    ∀ r ∈ rules, ∃ b, r.matches rt order = .ok b := by
  induction rules generalizing acc with
  | nil => simp
  | cons r rules ih =>
    unfold gather at h
    intro r' hr'
    cases hm : r.matches rt order with
    | error e => simp [hm] at h
    | ok b =>
      rcases List.mem_cons.mp hr' with rfl | hr'
      · exact ⟨b, hm⟩
      · -- the rest is gathered whether or not `r` matched
        cases b with
        | true =>
          have hrest : gather rt order rules (acc.apply r) = .ok acc' := by simpa [hm] using h
          exact ih hrest r' hr'
        | false =>
          have hrest : gather rt order rules acc = .ok acc' := by simpa [hm] using h
          exact ih hrest r' hr'

theorem foldl_apply (rules : List EnrichmentRule) (acc : Gathered) :
    rules.foldl Gathered.apply acc =
      ⟨acc.matchedRules ++ rules.map EnrichmentRule.ruleId,
        acc.appliedDetails ++ rules.map EnrichmentRule.appliedDetail,
        mergeFields acc.enrichedFields rules⟩ := by
  induction rules generalizing acc with
  | nil => simp [mergeFields]
  | cons r rules ih => simp [ih, Gathered.apply, mergeFields]

/-- The valid rules that match are the rules that apply, whether they are
    sorted before or after the conditions are tested. -/
theorem filter_matches_sortBy (rules : List EnrichmentRule) :
    (sortBy EnrichmentRule.priority (rules.filter fun r => r.isValidAt now = .ok true)).filter
        (fun r => r.matches rt order = .ok true) =
      matchingRules rt order now rules := by
  unfold matchingRules
  rw [filter_sortBy, List.filter_filter]
  congr 1
  apply List.filter_congr
  intro r _
  rw [Bool.eq_iff_iff]
  simp [EnrichmentRule.applies_iff, and_comm]

/-- If no rule raises, evaluation lists the rules that apply. -/
theorem evaluate_of_all {rules : List EnrichmentRule}
    (h : ∀ r ∈ rules, r.Evaluates rt order now) :
    evaluate rt order rules now =
      .ok (decisionOf order now (matchingRules rt order now rules)) := by
  have hvalid : ∀ r ∈ rules, ∃ b, r.isValidAt now = .ok b := by
    intro r hr
    rcases h r hr with hf | ⟨ht, _⟩
    · exact ⟨false, hf⟩
    · exact ⟨true, ht⟩
  -- only the valid rules get to their conditions
  have hmatch : ∀ r ∈ sortBy EnrichmentRule.priority
      (rules.filter fun r => r.isValidAt now = .ok true), ∃ b, r.matches rt order = .ok b := by
    intro r hr
    rw [mem_sortBy] at hr
    obtain ⟨hr, ht⟩ := List.mem_filter.mp hr
    rcases h r hr with hf | ⟨_, hm⟩
    · simp [hf] at ht
    · exact hm
  unfold evaluate
  rw [validRules_of_all hvalid]
  simp only
  rw [gather_of_all hmatch, filter_matches_sortBy, foldl_apply]
  rfl

/-- If evaluation returns, no rule raises. -/
theorem all_of_evaluate {rules : List EnrichmentRule} {d : EnrichmentDecision}
    (h : evaluate rt order rules now = .ok d) : ∀ r ∈ rules, r.Evaluates rt order now := by
  unfold evaluate at h
  cases hv : validRules now rules with
  | error e => simp [hv] at h
  | ok active =>
    have hall := all_of_validRules hv
    rw [validRules_of_all hall] at hv
    cases hv
    simp only [validRules_of_all hall] at h
    cases hg : gather rt order (sortBy EnrichmentRule.priority
        (rules.filter fun r => r.isValidAt now = .ok true)) .start with
    | error e => simp [hg] at h
    | ok acc =>
      have hmatch := all_of_gather hg
      intro r hr
      obtain ⟨b, hb⟩ := hall r hr
      cases b with
      | false => exact Or.inl hb
      | true =>
        -- a valid rule is in the sorted list, so its conditions were evaluated
        refine Or.inr ⟨hb, hmatch r ?_⟩
        rw [mem_sortBy]
        exact List.mem_filter.mpr ⟨hr, by simp [hb]⟩

/-- **Evaluation** returns exactly when no rule raises, and then lists the
    rules that apply. -/
theorem evaluate_eq_ok_iff {rules : List EnrichmentRule} {d : EnrichmentDecision} :
    evaluate rt order rules now = .ok d ↔
      (∀ r ∈ rules, r.Evaluates rt order now) ∧
        d = decisionOf order now (matchingRules rt order now rules) := by
  constructor
  · intro h
    have hall := all_of_evaluate h
    rw [evaluate_of_all hall, Except.ok.injEq] at h
    exact ⟨hall, h.symm⟩
  · intro h
    obtain ⟨hall, rfl⟩ := h
    exact evaluate_of_all hall

/-- Evaluation does not care in which order the rules that raise stand:
    a permutation evaluates as well. -/
theorem evaluate_ok_of_perm {rules rules' : List EnrichmentRule} (hp : rules.Perm rules')
    {d : EnrichmentDecision} (h : evaluate rt order rules now = .ok d) :
    evaluate rt order rules' now =
      .ok (decisionOf order now (matchingRules rt order now rules')) := by
  obtain ⟨hall, _⟩ := evaluate_eq_ok_iff.mp h
  exact evaluate_eq_ok_iff.mpr ⟨fun r hr => hall r (hp.mem_iff.mpr hr), rfl⟩

theorem mem_matchingRules {rules : List EnrichmentRule} {r : EnrichmentRule} :
    r ∈ matchingRules rt order now rules ↔ r ∈ rules ∧ r.applies rt order now = true := by
  simp [matchingRules]

end evaluation

/-! ## Which rule gives a field its value -/

theorem mergeFields_append (acc : JsonObject) (rules rules' : List EnrichmentRule) :
    mergeFields acc (rules ++ rules') = mergeFields (mergeFields acc rules) rules' := by
  induction rules generalizing acc with
  | nil => rfl
  | cons r rules ih => exact ih _

/-- A field that no rule defines keeps the value it had. -/
theorem lookup_mergeFields_of_none {k : String} {rules : List EnrichmentRule} {acc : JsonObject}
    (h : ∀ r ∈ rules, r.enrichmentJson.lookup k = none) :
    (mergeFields acc rules).lookup k = acc.lookup k := by
  induction rules generalizing acc with
  | nil => rfl
  | cons r rules ih =>
    have hr := h r List.mem_cons_self
    show (mergeFields (acc.update r.enrichmentJson) rules).lookup k = acc.lookup k
    rw [ih fun r' hr' => h r' (List.mem_cons_of_mem _ hr'), JsonObject.lookup_update, hr]
    rfl

/-- The last rule that defines a field gives it its value. -/
theorem lookup_mergeFields_of_last {k : String} {v : PyVal} {before after : List EnrichmentRule}
    {r : EnrichmentRule} {acc : JsonObject} (hr : r.enrichmentJson.lookup k = some v)
    (h : ∀ r' ∈ after, r'.enrichmentJson.lookup k = none) :
    (mergeFields acc (before ++ r :: after)).lookup k = some v := by
  rw [mergeFields_append]
  show (mergeFields ((mergeFields acc before).update r.enrichmentJson) after).lookup k = some v
  rw [lookup_mergeFields_of_none h, JsonObject.lookup_update, hr]
  rfl

/-- The rules that define a field split at the last of them. -/
theorem exists_last_definer {k : String} {rules : List EnrichmentRule}
    (h : ∃ r ∈ rules, r.enrichmentJson.lookup k ≠ none) :
    ∃ before r after, rules = before ++ r :: after ∧ r.enrichmentJson.lookup k ≠ none ∧
      ∀ r' ∈ after, r'.enrichmentJson.lookup k = none := by
  induction rules with
  | nil => simp at h
  | cons r rules ih =>
    -- the last definer is in the tail, unless the head is the only one
    by_cases hrest : ∃ r' ∈ rules, r'.enrichmentJson.lookup k ≠ none
    · obtain ⟨before, r', after, rfl, hr', hafter⟩ := ih hrest
      exact ⟨r :: before, r', after, rfl, hr', hafter⟩
    · obtain ⟨r', hr', hk⟩ := h
      have hnone : ∀ x ∈ rules, x.enrichmentJson.lookup k = none := fun x hx => by
        by_contra hne
        exact hrest ⟨x, hx, hne⟩
      rcases List.mem_cons.mp hr' with rfl | hmem
      · exact ⟨[], r', rules, rfl, hk, hnone⟩
      · exact absurd (hnone r' hmem) hk

/-! ## The hash never raises, and forgets the order of keys -/

theorem computeHash_ok (rt : Runtime) (order : ExternalOrder) (fields : JsonObject) :
    ∃ h, computeHash rt order fields = .ok h := by
  obtain ⟨t, ht⟩ := fields.dumps_ok
  unfold computeHash
  simp [PyVal.dumps, PyVal.dumpsFields, ht, Except.map]

theorem computeHash_eq_of_same (rt : Runtime) {o o' : ExternalOrder} {f f' : JsonObject}
    (hid : o.orderId = o'.orderId) (hts : o.updatedAt.isoformat = o'.updatedAt.isoformat)
    (hf : f.same f' = true) : computeHash rt o f = computeHash rt o' f' := by
  unfold computeHash
  simp only [PyVal.dumps, PyVal.dumpsFields, JsonObject.dumps_eq_of_same hf, hid, hts]

end RulesEnrichment
