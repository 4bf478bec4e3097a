import RulesEnrichment.Lib.ShortCircuit
import RulesEnrichment.ProcessStep

/-! # Conditions as formulas

    A specification is a formula of predicates, evaluated from left to
    right (`isSatisfiedBy_eq`). So the conditions of a rule can be
    reordered, regrouped or rewritten in any way that keeps their meaning as
    a formula: no decision changes by it (`equivalent_conditions`), except
    that evaluation may come across a predicate that raises earlier, later
    or not at all. -/

namespace RulesEnrichment

open Python StableSort ShortCircuit

/-! ## Specifications -/

namespace Specification

mutual

def formula : Specification → Formula PredicateSpecification
  | .predicate p => .atom p
  | .and specs => .all (formulas specs)
  | .or specs => .any (formulas specs)

def formulas : List Specification → List (Formula PredicateSpecification)
  | [] => []
  | s :: specs => formula s :: formulas specs

end

variable {rt : Runtime} {order : ExternalOrder}

mutual

/-- `is_satisfied_by` evaluates the formula. -/
theorem isSatisfiedBy_eq : ∀ s : Specification,
    s.isSatisfiedBy rt order = s.formula.eval (·.isSatisfiedBy rt order)
  | .predicate _ => rfl
  | .and specs => allSatisfied_eq specs
  | .or specs => anySatisfied_eq specs

theorem allSatisfied_eq : ∀ specs : List Specification,
    allSatisfied rt order specs = Formula.evalAll (·.isSatisfiedBy rt order) (formulas specs)
  | [] => rfl
  | s :: specs => by
    unfold allSatisfied formulas Formula.evalAll
    rw [isSatisfiedBy_eq s, allSatisfied_eq specs]
    rcases Formula.eval _ s.formula with _ | _ | _ <;> rfl

theorem anySatisfied_eq : ∀ specs : List Specification,
    anySatisfied rt order specs = Formula.evalAny (·.isSatisfiedBy rt order) (formulas specs)
  | [] => rfl
  | s :: specs => by
    unfold anySatisfied formulas Formula.evalAny
    rw [isSatisfiedBy_eq s, anySatisfied_eq specs]
    rcases Formula.eval _ s.formula with _ | _ | _ <;> rfl

end

end Specification

/-! ## Rules -/

/-- Two documents are conditions of one meaning, as far as both can be
    built. -/
def SameConditions (rt : Runtime) (conditions conditions' : JsonObject) : Prop :=
  ∀ s s', fromJson rt conditions.toVal = .ok s → fromJson rt conditions'.toVal = .ok s' →
    Formula.Equivalent s.formula s'.formula

/-- The document can be built, and none of its predicates raises on the
    order. -/
def NothingRaises (rt : Runtime) (order : ExternalOrder) (conditions : JsonObject) : Prop :=
  ∃ s, fromJson rt conditions.toVal = .ok s ∧
    ∀ p ∈ s.formula.atoms, ∃ b, p.isSatisfiedBy rt order = .ok b

/-- The rule with other conditions. -/
def EnrichmentRule.withConditions (r : EnrichmentRule) (conditions : JsonObject) :
    EnrichmentRule :=
  { r with conditionsJson := conditions }

section

variable {rt : Runtime} {order : ExternalOrder} {now : DateTime} {r : EnrichmentRule}
  {conditions : JsonObject}

theorem matches_ok_iff {b : Bool} : r.matches rt order = .ok b ↔
    ∃ s, fromJson rt r.conditionsJson.toVal = .ok s ∧
      s.formula.eval (·.isSatisfiedBy rt order) = .ok b := by
  unfold EnrichmentRule.matches
  rcases fromJson rt r.conditionsJson.toVal with e | s
  · constructor
    · intro h
      cases h
    · rintro ⟨s, hs, _⟩
      cases hs
  · simp only [Except.ok.injEq, exists_eq_left', Specification.isSatisfiedBy_eq]

theorem matches_withConditions (h : SameConditions rt r.conditionsJson conditions) {b b' : Bool}
    (hb : r.matches rt order = .ok b) (hb' : (r.withConditions conditions).matches rt order = .ok b') :
    b = b' := by
  obtain ⟨s, hs, heval⟩ := matches_ok_iff.mp hb
  obtain ⟨s', hs', heval'⟩ := matches_ok_iff.mp hb'
  exact (h s s' hs hs').eval_eq heval heval'

theorem matches_of_nothingRaises (h : NothingRaises rt order conditions) :
    ∃ b, (r.withConditions conditions).matches rt order = .ok b := by
  obtain ⟨s, hs, hatoms⟩ := h
  obtain ⟨b, hb⟩ := Formula.eval_ok s.formula hatoms
  exact ⟨b, matches_ok_iff.mpr ⟨s, hs, hb⟩⟩

/-- Where both rules evaluate, both apply or none does. -/
theorem applies_withConditions (h : SameConditions rt r.conditionsJson conditions)
    (hr : r.Evaluates rt order now) (hr' : (r.withConditions conditions).Evaluates rt order now) :
    (r.withConditions conditions).applies rt order now = r.applies rt order now := by
  have hvalid : (r.withConditions conditions).isValidAt now = r.isValidAt now := rfl
  unfold EnrichmentRule.Evaluates at hr hr'
  unfold EnrichmentRule.applies
  rw [hvalid] at hr' ⊢
  rcases hr with hno | ⟨hyes, b, hb⟩
  · rw [hno]
  · rcases hr' with hno | ⟨_, b', hb'⟩
    · rw [hyes] at hno
      cases hno
    · rw [hyes, hb, hb', matches_withConditions h hb hb']

end

/-- **Rewritten conditions.** Give every rule of a list other conditions of
    the same meaning. If evaluation returned a decision and still returns
    one, it is the same. It does still return if no predicate of the new
    conditions of a valid rule raises. -/
theorem equivalent_conditions {rt : Runtime} {order : ExternalOrder} {now : DateTime}
    {rules : List EnrichmentRule} {d : EnrichmentDecision}
    (heval : evaluate rt order rules now = .ok d) (rewriting : EnrichmentRule → JsonObject)
    (hsame : ∀ r ∈ rules, SameConditions rt r.conditionsJson (rewriting r)) :
    (∀ d', evaluate rt order (rules.map fun r => r.withConditions (rewriting r)) now = .ok d' →
      d' = d) ∧
    ((∀ r ∈ rules, r.isValidAt now = .ok true → NothingRaises rt order (rewriting r)) →
      evaluate rt order (rules.map fun r => r.withConditions (rewriting r)) now = .ok d) := by
  obtain ⟨hall, rfl⟩ := evaluate_eq_ok_iff.mp heval
  let rewritten : List EnrichmentRule := rules.map fun r => r.withConditions (rewriting r)
  -- rules that evaluate come to the same decision
  have hdecision : (∀ r ∈ rewritten, r.Evaluates rt order now) →
      decisionOf order now (matchingRules rt order now rewritten) =
        decisionOf order now (matchingRules rt order now rules) := by
    intro hall'
    have hfilter : rewritten.filter (·.applies rt order now) =
        (rules.filter (·.applies rt order now)).map fun r => r.withConditions (rewriting r) := by
      rw [List.filter_map]
      refine congrArg _ (List.filter_congr fun r hr => ?_)
      exact applies_withConditions (hsame r hr) (hall r hr) (hall' _ (List.mem_map_of_mem hr))
    have hmatching : matchingRules rt order now rewritten =
        (matchingRules rt order now rules).map fun r => r.withConditions (rewriting r) := by
      unfold matchingRules
      rw [hfilter, sortBy_map]
      rfl
    have hmerge : ∀ (rs : List EnrichmentRule) (acc : JsonObject),
        mergeFields acc (rs.map fun r => r.withConditions (rewriting r)) = mergeFields acc rs := by
      intro rs
      induction rs with
      | nil => exact fun _ => rfl
      | cons r rs ih => exact fun acc => ih _
    have hids : ∀ rs : List EnrichmentRule,
        (rs.map fun r => r.withConditions (rewriting r)).map EnrichmentRule.ruleId =
          rs.map EnrichmentRule.ruleId := by
      intro rs
      rw [List.map_map]
      rfl
    rw [hmatching]
    unfold decisionOf
    rw [hmerge, hids, List.map_map]
    rfl
  constructor
  · intro d' hd'
    obtain ⟨hall', rfl⟩ := evaluate_eq_ok_iff.mp hd'
    exact hdecision hall'
  · intro hquiet
    have hall' : ∀ r ∈ rewritten, r.Evaluates rt order now := by
      intro r' hr'
      obtain ⟨r, hr, rfl⟩ := List.mem_map.mp hr'
      rcases hall r hr with hno | ⟨hyes, _⟩
      · exact Or.inl hno
      · exact Or.inr ⟨hyes, matches_of_nothingRaises (hquiet r hr hyes)⟩
    exact evaluate_eq_ok_iff.mpr ⟨hall', (hdecision hall').symm⟩

namespace Sample

def isItalian : PyVal := .dict [("field", .str "destination_address.country_code"),
  ("op", .str "eq"), ("value", .str "IT")]

def isUrgent : PyVal := .dict [("field", .str "priority"), ("op", .str "lte"), ("value", .int 5)]

def italianFirst : JsonObject := ⟨[("and", .list [isItalian, isUrgent])], by decide⟩

def urgentFirst : JsonObject := ⟨[("and", .list [isUrgent, isItalian])], by decide⟩

end Sample

/-- A rule with two conditions, in either order. -/
theorem equivalent_conditions_sample :
    ∃ d, evaluate Sample.runtime (Sample.order "ORD-1" Sample.nine)
        [(Sample.rule "R1" "ES01").withConditions Sample.italianFirst] Sample.ten = .ok d ∧
      d.matchedRules = ["R1"] ∧
      ∀ d', evaluate Sample.runtime (Sample.order "ORD-1" Sample.nine)
        [(Sample.rule "R1" "ES01").withConditions Sample.urgentFirst] Sample.ten = .ok d' →
          d' = d := by
  obtain ⟨d, heval, hmatched⟩ : ∃ d, evaluate Sample.runtime (Sample.order "ORD-1" Sample.nine)
      [(Sample.rule "R1" "ES01").withConditions Sample.italianFirst] Sample.ten = .ok d ∧
      d.matchedRules = ["R1"] := ⟨_, rfl, rfl⟩
  refine ⟨d, heval, hmatched, ?_⟩
  refine (equivalent_conditions heval (fun _ => Sample.urgentFirst) ?_).1
  intro r hr s s' hs hs' v
  rw [List.mem_singleton.mp hr] at hs
  rw [← Except.ok.inj hs, ← Except.ok.inj hs']
  show (v _ && (v _ && true)) = (v _ && (v _ && true))
  rw [Bool.and_true, Bool.and_true, Bool.and_comm]

end RulesEnrichment
