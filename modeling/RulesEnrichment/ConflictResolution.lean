import RulesEnrichment.Determinism

/-! # Which rule wins

    The rules that are valid and whose conditions hold, stably sorted by
    ascending priority, are all that the decision depends on. It lists
    them in this order, and every field has the value that the last of
    them gives it. -/

namespace RulesEnrichment

open Python StableSort

/-- The rules that are valid at `now` and hold on the order. -/
def applicable (rt : Runtime) (order : ExternalOrder) (now : DateTime)
    (rules : List EnrichmentRule) : List EnrichmentRule :=
  rules.filter fun r => decide (r.isValidAt now = .ok true ∧ r.matches rt order = .ok true)

/-- The decision lists exactly the rules of `matched`, and the last of them
    that sets a field wins. -/
structure Resolves (matched : List EnrichmentRule) (d : EnrichmentDecision) : Prop where
  matchedRules : d.matchedRules = matched.map (·.ruleId)
  details : d.appliedRuleDetails = matched.map EnrichmentRule.appliedDetail
  keys : ∀ k, d.enrichedFields.lookup k ≠ none ↔ ∃ r ∈ matched, r.enrichmentJson.lookup k ≠ none
  value : ∀ k before r after, matched = before ++ r :: after →
    r.enrichmentJson.lookup k ≠ none → (∀ r' ∈ after, r'.enrichmentJson.lookup k = none) →
    d.enrichedFields.lookup k = r.enrichmentJson.lookup k
  hasMatches : d.hasMatches = true ↔ matched ≠ []

section

variable {rt : Runtime} {order : ExternalOrder} {now : DateTime}

theorem matchingRules_eq_sortBy (rules : List EnrichmentRule) :
    matchingRules rt order now rules =
      sortBy EnrichmentRule.priority (applicable rt order now rules) := by
  unfold matchingRules applicable
  refine congrArg (sortBy EnrichmentRule.priority) (List.filter_congr ?_)
  intro r _
  rw [Bool.eq_iff_iff, EnrichmentRule.applies_iff, decide_eq_true_eq]

/-- The fields of a list of rules are those that some rule sets. -/
theorem lookup_mergeFields_ne_none_iff {k : String} {matched : List EnrichmentRule} :
    (mergeFields .empty matched).lookup k ≠ none ↔
      ∃ r ∈ matched, r.enrichmentJson.lookup k ≠ none := by
  constructor
  · intro h
    by_contra hno
    refine h ?_
    rw [lookup_mergeFields_of_none, JsonObject.lookup_empty]
    intro r hr
    by_contra hne
    exact hno ⟨r, hr, hne⟩
  · intro h
    obtain ⟨before, r, after, rfl, hr, hafter⟩ := exists_last_definer h
    obtain ⟨v, hv⟩ := Option.ne_none_iff_exists'.mp hr
    rw [lookup_mergeFields_of_last hv hafter]
    exact Option.some_ne_none v

theorem decisionOf_resolves (matched : List EnrichmentRule) :
    Resolves matched (decisionOf order now matched) where
  matchedRules := rfl
  details := rfl
  keys _ := lookup_mergeFields_ne_none_iff
  value k before r after hsplit hr hafter := by
    obtain ⟨v, hv⟩ := Option.ne_none_iff_exists'.mp hr
    rw [hsplit, hv]
    exact lookup_mergeFields_of_last hv hafter
  hasMatches := by
    show decide (0 < (matched.map EnrichmentRule.ruleId).length) = true ↔ _
    rw [decide_eq_true_eq, List.length_map, List.length_pos_iff]

/-- The rules that apply evaluate by themselves, and to what they evaluate
    to among the others. -/
theorem evaluate_matched {rules matched : List EnrichmentRule} {d : EnrichmentDecision}
    (h : evaluate rt order rules now = .ok d)
    (hm : StablySorted EnrichmentRule.priority matched (applicable rt order now rules)) :
    evaluate rt order matched now = .ok d := by
  obtain ⟨hall, rfl⟩ := evaluate_eq_ok_iff.mp h
  have hmem : ∀ r ∈ matched, r ∈ rules ∧ r.isValidAt now = .ok true ∧ r.matches rt order = .ok true := by
    intro r hr
    obtain ⟨hin, happ⟩ := List.mem_filter.mp (hm.mem_iff.mp hr)
    exact ⟨hin, of_decide_eq_true happ⟩
  refine evaluate_eq_ok_iff.mpr ⟨fun r hr => hall r (hmem r hr).1, ?_⟩
  -- all of them apply, and they are sorted already
  have hself : applicable rt order now matched = matched := by
    refine List.filter_eq_self.mpr ?_
    intro r hr
    exact decide_eq_true (hmem r hr).2
  have hsorted : StablySorted EnrichmentRule.priority matched matched := ⟨hm.ascending, fun _ => rfl⟩
  rw [matchingRules_eq_sortBy, matchingRules_eq_sortBy, hself, ← hsorted.eq_sortBy, ← hm.eq_sortBy]

/-- **Conflict resolution.** Where evaluation does not raise, the decision
    resolves the stably sorted list of the rules that apply; any other
    rules around the same list, or none, lead to the same decision. -/
theorem conflict_resolution {rules matched : List EnrichmentRule} {d : EnrichmentDecision}
    (h : evaluate rt order rules now = .ok d)
    (hm : StablySorted EnrichmentRule.priority matched (applicable rt order now rules)) :
    Resolves matched d ∧ evaluate rt order matched now = .ok d ∧
      ∀ rules' d', StablySorted EnrichmentRule.priority matched (applicable rt order now rules') →
        evaluate rt order rules' now = .ok d' → d' = d := by
  have hd : d = decisionOf order now matched := by
    rw [(evaluate_eq_ok_iff.mp h).2, matchingRules_eq_sortBy, ← hm.eq_sortBy]
  refine ⟨?_, evaluate_matched h hm, ?_⟩
  · rw [hd]
    exact decisionOf_resolves matched
  · intro rules' d' hm' h'
    rw [hd, (evaluate_eq_ok_iff.mp h').2, matchingRules_eq_sortBy, ← hm'.eq_sortBy]

end

/-- Two rules that send the order to different lanes; the first of the list
    comes last in priority, and wins. -/
theorem conflict_resolution_lanes :
    let lower := { Sample.rule "R2" "ES02" with priority := 5 }
    let matched := [lower, Sample.rule "R1" "ES01"]
    let order := Sample.order "ORD-1" Sample.nine
    let d := decisionOf order Sample.ten matched
    Resolves matched d ∧ evaluate Sample.runtime order matched Sample.ten = .ok d ∧
      ∀ rules' d', StablySorted EnrichmentRule.priority matched
          (applicable Sample.runtime order Sample.ten rules') →
        evaluate Sample.runtime order rules' Sample.ten = .ok d' → d' = d := by
  intro lower matched order d
  let rules := [Sample.rule "R1" "ES01", lower]
  have hsorted : matched =
      sortBy EnrichmentRule.priority (applicable Sample.runtime order Sample.ten rules) := rfl
  have hm : StablySorted EnrichmentRule.priority matched
      (applicable Sample.runtime order Sample.ten rules) := by
    rw [hsorted]
    exact stablySorted_sortBy EnrichmentRule.priority _
  have h : evaluate Sample.runtime order rules Sample.ten = .ok d := rfl
  exact conflict_resolution h hm

end RulesEnrichment
