import RulesEnrichment.ProcessStep

/-! # Does the order of the rules matter?

    Rules are sorted by priority alone, and the sort is stable, so rules of
    one priority stand in the order in which the database returned them.
    Where two of them set the same field, the later one wins.

    `lookup_merged` says which rule gives a field its value;
    `orderIndependent_iff` draws the consequence: the fields are the same
    for every order of the rules exactly if ties agree. -/

namespace RulesEnrichment

open Python StableSort

/-- The rule sets the field. -/
def EnrichmentRule.defines (k : String) (r : EnrichmentRule) : Bool :=
  (r.enrichmentJson.lookup k).isSome

theorem EnrichmentRule.defines_iff {k : String} {r : EnrichmentRule} :
    r.defines k = true ↔ r.enrichmentJson.lookup k ≠ none := by
  unfold EnrichmentRule.defines
  rw [Option.isSome_iff_ne_none]

theorem EnrichmentRule.defines_eq_false_iff {k : String} {r : EnrichmentRule} :
    r.defines k = false ↔ r.enrichmentJson.lookup k = none := by
  unfold EnrichmentRule.defines
  rw [Option.isSome_eq_false_iff, Option.isNone_iff_eq_none]

/-! ## The rule that gives a field its value -/

/-- What was there before matters for a field only through that field. -/
theorem lookup_mergeFields_congr {k : String} {acc acc' : JsonObject}
    (h : acc.lookup k = acc'.lookup k) (rules : List EnrichmentRule) :
    (mergeFields acc rules).lookup k = (mergeFields acc' rules).lookup k := by
  induction rules generalizing acc acc' with
  | nil => exact h
  | cons r rules ih =>
    -- a rule overwrites the field in both, or in neither
    refine ih ?_
    rw [JsonObject.lookup_update, JsonObject.lookup_update, h]

/-- Only the rules that set a field matter for it. -/
theorem lookup_mergeFields_filter (k : String) (rules : List EnrichmentRule) (acc : JsonObject) :
    (mergeFields acc rules).lookup k =
      (mergeFields acc (rules.filter (·.defines k))).lookup k := by
  induction rules generalizing acc with
  | nil => rfl
  | cons r rules ih =>
    cases hd : r.defines k with
    | true =>
      rw [List.filter_cons_of_pos hd]
      exact ih (acc.update r.enrichmentJson)
    | false =>
      have hnone := EnrichmentRule.defines_eq_false_iff.mp hd
      have hdrop : ¬ r.defines k = true := by simp [hd]
      rw [List.filter_cons_of_neg hdrop, ← ih acc]
      refine lookup_mergeFields_congr ?_ rules
      rw [JsonObject.lookup_update, hnone]
      rfl

section

variable {rt : Runtime} {order : ExternalOrder} {now : DateTime}

/-- A field gets its value from a rule of the greatest priority among the
    rules that apply and set it. -/
theorem lookup_merged {k : String} {rules : List EnrichmentRule}
    (h : ∃ r ∈ rules, r.applies rt order now = true ∧ r.defines k = true) :
    ∃ r ∈ rules, r.applies rt order now = true ∧ r.defines k = true ∧
      (∀ r' ∈ rules, r'.applies rt order now = true → r'.defines k = true →
        r'.priority ≤ r.priority) ∧
      (mergeFields .empty (matchingRules rt order now rules)).lookup k =
        r.enrichmentJson.lookup k := by
  obtain ⟨r₀, hr₀, happ₀, hdef₀⟩ := h
  have hdefiner : ∃ r ∈ matchingRules rt order now rules, r.enrichmentJson.lookup k ≠ none :=
    ⟨r₀, mem_matchingRules.mpr ⟨hr₀, happ₀⟩, EnrichmentRule.defines_iff.mp hdef₀⟩
  -- the last of the matching rules that sets the field
  obtain ⟨before, r, after, hsplit, hr, hafter⟩ := exists_last_definer hdefiner
  have hmem : r ∈ matchingRules rt order now rules := by
    rw [hsplit]
    exact List.mem_append_right _ List.mem_cons_self
  obtain ⟨hin, happ⟩ := mem_matchingRules.mp hmem
  refine ⟨r, hin, happ, EnrichmentRule.defines_iff.mpr hr, ?_, ?_⟩
  · intro r' hr' happ' hdef'
    -- in the sorted list `r'` stands before `r`, or is `r`
    have hmem' : r' ∈ before ++ r :: after := by
      rw [← hsplit]
      exact mem_matchingRules.mpr ⟨hr', happ'⟩
    have hsorted : (before ++ r :: after).Pairwise fun a b => a.priority ≤ b.priority := by
      rw [← hsplit]
      exact sortBy_pairwise EnrichmentRule.priority _
    rcases List.mem_append.mp hmem' with hb | hb
    · exact (List.pairwise_append.mp hsorted).2.2 r' hb r List.mem_cons_self
    · rcases List.mem_cons.mp hb with rfl | ha
      · exact le_refl _
      · exact absurd (hafter r' ha) (EnrichmentRule.defines_iff.mp hdef')
  · rw [hsplit]
    obtain ⟨v, hv⟩ := Option.ne_none_iff_exists'.mp hr
    rw [lookup_mergeFields_of_last hv hafter, hv]

/-- A field that no applying rule sets is absent. -/
theorem lookup_merged_of_none {k : String} {rules : List EnrichmentRule}
    (h : ∀ r ∈ rules, r.applies rt order now = true → r.defines k = false) :
    (mergeFields .empty (matchingRules rt order now rules)).lookup k = none := by
  rw [lookup_mergeFields_of_none, JsonObject.lookup_empty]
  intro r hr
  obtain ⟨hin, happ⟩ := mem_matchingRules.mp hr
  exact EnrichmentRule.defines_eq_false_iff.mp (h r hin happ)

/-- A rule of the greatest priority that stands last in the list wins. -/
theorem lookup_merged_of_last {k : String} {rules : List EnrichmentRule} {r : EnrichmentRule}
    (happ : r.applies rt order now = true) (hdef : r.defines k = true)
    (htop : ∀ r' ∈ rules, r'.applies rt order now = true → r'.defines k = true →
      r'.priority ≤ r.priority) :
    (mergeFields .empty (matchingRules rt order now (rules ++ [r]))).lookup k =
      r.enrichmentJson.lookup k := by
  -- among the rules that set the field, `r` is last and of maximal priority
  rw [lookup_mergeFields_filter]
  have hlast : (matchingRules rt order now (rules ++ [r])).filter (·.defines k) =
      (matchingRules rt order now rules).filter (·.defines k) ++ [r] := by
    unfold matchingRules
    rw [filter_sortBy, filter_sortBy, List.filter_append, List.filter_append,
      List.filter_cons_of_pos happ, List.filter_nil, List.filter_cons_of_pos hdef, List.filter_nil]
    apply sortBy_snoc_max
    intro r' hr'
    obtain ⟨hr', hdef'⟩ := List.mem_filter.mp hr'
    obtain ⟨hin, happ'⟩ := List.mem_filter.mp hr'
    exact htop r' hin happ' hdef'
  obtain ⟨v, hv⟩ := Option.ne_none_iff_exists'.mp (EnrichmentRule.defines_iff.mp hdef)
  rw [hlast, lookup_mergeFields_of_last hv (by simp), hv]

end

/-! ## Independence of the order -/

/-- Every order of the rules gives the same fields and the same hash. -/
def OrderIndependent (rt : Runtime) (order : ExternalOrder) (now : DateTime)
    (rules : List EnrichmentRule) : Prop :=
  ∀ l₁ l₂, l₁.Perm rules → l₂.Perm rules → ∀ d₁ d₂,
    evaluate rt order l₁ now = .ok d₁ → evaluate rt order l₂ now = .ok d₂ →
      d₁.enrichedFields.same d₂.enrichedFields = true ∧
        computeHash rt order d₁.enrichedFields = computeHash rt order d₂.enrichedFields

/-- Two rules of one priority that apply and set the same field set it to
    the same value, unless a rule of higher priority sets it anyway. -/
def TiesAgree (rt : Runtime) (order : ExternalOrder) (now : DateTime)
    (rules : List EnrichmentRule) : Prop :=
  ∀ k, ∀ r₁ ∈ rules, ∀ r₂ ∈ rules,
    r₁.applies rt order now = true → r₂.applies rt order now = true →
    r₁.defines k = true → r₂.defines k = true → r₁.priority = r₂.priority →
    (∀ r ∈ rules, r.applies rt order now = true → r.defines k = true →
      r.priority ≤ r₁.priority) →
    PyVal.sameOption (r₁.enrichmentJson.lookup k) (r₂.enrichmentJson.lookup k) = true

/-- A list can be reordered so that one of its members comes last. -/
theorem exists_perm_snoc {r : EnrichmentRule} {rules : List EnrichmentRule} (hr : r ∈ rules) :
    ∃ l, (l ++ [r]).Perm rules := by
  obtain ⟨s, t, rfl⟩ := List.append_of_mem hr
  refine ⟨s ++ t, ?_⟩
  rw [List.append_assoc]
  exact (List.perm_append_singleton r t).append_left s

section

variable {rt : Runtime} {order : ExternalOrder} {now : DateTime} {rules : List EnrichmentRule}

/-- A rule that nothing applying exceeds can be made to win: some order of
    the rules takes the field's value from it. -/
theorem exists_perm_lookup {k : String} {r : EnrichmentRule} (hr : r ∈ rules)
    (happ : r.applies rt order now = true) (hdef : r.defines k = true)
    (htop : ∀ r' ∈ rules, r'.applies rt order now = true → r'.defines k = true →
      r'.priority ≤ r.priority) :
    ∃ l, l.Perm rules ∧ (mergeFields .empty (matchingRules rt order now l)).lookup k =
      r.enrichmentJson.lookup k := by
  obtain ⟨l, hp⟩ := exists_perm_snoc hr
  refine ⟨l ++ [r], hp, lookup_merged_of_last happ hdef ?_⟩
  intro r' hr' happ' hdef'
  exact htop r' (hp.mem_iff.mp (List.mem_append_left _ hr')) happ' hdef'

/-- If ties agree, two orders of the rules give a field the same value. -/
theorem sameOption_merged_of_tiesAgree (hties : TiesAgree rt order now rules)
    {l₁ l₂ : List EnrichmentRule} (hp₁ : l₁.Perm rules) (hp₂ : l₂.Perm rules) (k : String) :
    PyVal.sameOption ((mergeFields .empty (matchingRules rt order now l₁)).lookup k)
      ((mergeFields .empty (matchingRules rt order now l₂)).lookup k) = true := by
  by_cases hdef : ∃ r ∈ rules, r.applies rt order now = true ∧ r.defines k = true
  · obtain ⟨r, hr, happ, hk⟩ := hdef
    obtain ⟨r₁, hr₁, happ₁, hk₁, htop₁, hv₁⟩ := lookup_merged ⟨r, hp₁.mem_iff.mpr hr, happ, hk⟩
    obtain ⟨r₂, hr₂, happ₂, hk₂, htop₂, hv₂⟩ := lookup_merged ⟨r, hp₂.mem_iff.mpr hr, happ, hk⟩
    have hin₁ : r₁ ∈ rules := hp₁.mem_iff.mp hr₁
    have hin₂ : r₂ ∈ rules := hp₂.mem_iff.mp hr₂
    -- each of the two winners has the greatest priority, so they tie
    have hle₂ := htop₁ r₂ (hp₁.mem_iff.mpr hin₂) happ₂ hk₂
    have hle₁ := htop₂ r₁ (hp₂.mem_iff.mpr hin₁) happ₁ hk₁
    have htie : r₁.priority = r₂.priority := by omega
    rw [hv₁, hv₂]
    apply hties k r₁ hin₁ r₂ hin₂ happ₁ happ₂ hk₁ hk₂ htie
    intro r' hr' happ' hdef'
    exact htop₁ r' (hp₁.mem_iff.mpr hr') happ' hdef'
  · -- nothing sets the field
    have hnone : ∀ l, l.Perm rules →
        (mergeFields .empty (matchingRules rt order now l)).lookup k = none := by
      intro l hp
      apply lookup_merged_of_none
      intro r hr happ
      cases hd : r.defines k with
      | false => rfl
      | true => exact absurd ⟨r, hp.mem_iff.mp hr, happ, hd⟩ hdef
    rw [hnone l₁ hp₁, hnone l₂ hp₂]
    rfl

end

/-- **Order of rules.** The outcome does not depend on the order of the
    rules exactly if ties agree. -/
theorem orderIndependent_iff {rt : Runtime} {order : ExternalOrder} {now : DateTime}
    {rules : List EnrichmentRule} {d : EnrichmentDecision}
    (hok : evaluate rt order rules now = .ok d) :
    OrderIndependent rt order now rules ↔ TiesAgree rt order now rules := by
  constructor
  · intro h k r₁ hr₁ r₂ hr₂ happ₁ happ₂ hdef₁ hdef₂ heq htop
    -- let each of the two rules win in its own order, and compare
    have htop₂ : ∀ r ∈ rules, r.applies rt order now = true → r.defines k = true →
        r.priority ≤ r₂.priority := by
      rw [← heq]
      exact htop
    obtain ⟨l₁, hp₁, hv₁⟩ := exists_perm_lookup hr₁ happ₁ hdef₁ htop
    obtain ⟨l₂, hp₂, hv₂⟩ := exists_perm_lookup hr₂ happ₂ hdef₂ htop₂
    have hev₁ := evaluate_ok_of_perm hp₁.symm hok
    have hev₂ := evaluate_ok_of_perm hp₂.symm hok
    obtain ⟨hsame, _⟩ := h _ _ hp₁ hp₂ _ _ hev₁ hev₂
    have hk := (JsonObject.same_iff _ _).mp hsame k
    rw [← hv₁, ← hv₂]
    exact hk
  · intro hties l₁ l₂ hp₁ hp₂ d₁ d₂ h₁ h₂
    obtain ⟨_, rfl⟩ := evaluate_eq_ok_iff.mp h₁
    obtain ⟨_, rfl⟩ := evaluate_eq_ok_iff.mp h₂
    have hsame : (mergeFields .empty (matchingRules rt order now l₁)).same
        (mergeFields .empty (matchingRules rt order now l₂)) = true := by
      rw [JsonObject.same_iff]
      intro k
      exact sameOption_merged_of_tiesAgree hties hp₁ hp₂ k
    exact ⟨hsame, computeHash_eq_of_same rt rfl rfl hsame⟩

theorem orderIndependent_iff_sample :
    OrderIndependent Sample.runtime (Sample.order "ORD-1" Sample.nine) Sample.ten
      [Sample.rule "R1" "ES01", Sample.rule "R2" "ES01"] ↔
    TiesAgree Sample.runtime (Sample.order "ORD-1" Sample.nine) Sample.ten
      [Sample.rule "R1" "ES01", Sample.rule "R2" "ES01"] :=
  orderIndependent_iff (d := decisionOf (Sample.order "ORD-1" Sample.nine) Sample.ten
    [Sample.rule "R1" "ES01", Sample.rule "R2" "ES01"]) rfl

/-- Two rules of one priority that send the order to different lanes. -/
theorem tied_rules_conflict :
    ([Sample.rule "R1" "ES01", Sample.rule "R2" "ES02"].map EnrichmentRule.ruleId).Nodup ∧
    ¬ OrderIndependent Sample.runtime (Sample.order "ORD-1" Sample.nine) Sample.ten
      [Sample.rule "R1" "ES01", Sample.rule "R2" "ES02"] := by
  refine ⟨by decide, ?_⟩
  intro h
  obtain ⟨hsame, _⟩ := h [Sample.rule "R1" "ES01", Sample.rule "R2" "ES02"]
    [Sample.rule "R2" "ES02", Sample.rule "R1" "ES01"] (List.Perm.refl _) (List.Perm.swap _ _ _)
    (decisionOf (Sample.order "ORD-1" Sample.nine) Sample.ten
      [Sample.rule "R1" "ES01", Sample.rule "R2" "ES02"])
    (decisionOf (Sample.order "ORD-1" Sample.nine) Sample.ten
      [Sample.rule "R2" "ES02", Sample.rule "R1" "ES01"]) rfl rfl
  revert hsame
  decide

end RulesEnrichment
