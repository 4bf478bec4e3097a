import RulesEnrichment.ProcessStep

/-! # What field paths read

    `_extract` follows a path by `getattr`, which finds the data fields of
    the order and of its addresses, but also methods and whatever else a
    Python object has by nature. `extract_denotes_iff`: a path reads what
    it denotes, unless it strays from the data fields and arrives
    somewhere. -/

namespace RulesEnrichment

open Python

/-! ## What a path denotes -/

def orderMethods : List String := ["has_hazmat", "temperature_classes"]

/-- The data field of the value reached that a token names. -/
def Reached.data (rt : Runtime) (token : String) : Reached → Option Reached
  | .order o => if token ∈ orderMethods then none else o.member rt token
  | .address a => a.member token
  | .value _ => none

/-- The value at the end of the path, or `None` from the first token on that
    names no data field. -/
def denoted (rt : Runtime) : Reached → List String → PyVal
  | current, [] => current.toVal rt
  | current, token :: tokens =>
    match current.data rt token with
    | some next => denoted rt next tokens
    | none => .null

/-! ## What else there is -/

/-- `value is not None` -/
def present : PyVal → Bool
  | .null => false
  | _ => true

/-- What a token names beside the data fields: a method or another
    attribute, or the entry of a dictionary. -/
def Reached.attribute (rt : Runtime) (token : String) : Reached → Option PyVal
  | .order o =>
    if token ∈ orderMethods then (o.member rt token).map (·.toVal rt)
    else rt.getattr (Reached.toVal rt (.order o)) token
  | .address a => rt.getattr (Reached.toVal rt (.address a)) token
  -- nothing is looked for in `None`
  | .value .null => none
  | .value (.dict es) => es.lookup token
  | .value v => rt.getattr v token

/-- Where a chain of attributes leads to; `None` where it breaks off. -/
def leadsTo (rt : Runtime) : PyVal → List String → PyVal
  | v, [] => v
  | v, token :: tokens =>
    match (Reached.value v).attribute rt token with
    | some w => leadsTo rt w tokens
    | none => .null

/-- The path leaves the data fields, and the attributes that its other
    tokens name lead to an object. -/
def strays (rt : Runtime) : Reached → List String → Bool
  | _, [] => false
  | current, token :: tokens =>
    match current.data rt token with
    | some next => strays rt next tokens
    | none =>
      match current.attribute rt token with
      | some v => present (leadsTo rt v tokens)
      | none => false

/-! ## The loop of `_extract` -/

section

variable {rt : Runtime}

theorem leadsTo_null (tokens : List String) : leadsTo rt .null tokens = .null := by
  cases tokens <;> rfl

theorem denoted_null (tokens : List String) : denoted rt (.value .null) tokens = .null := by
  cases tokens <;> rfl

theorem strays_null (tokens : List String) : strays rt (.value .null) tokens = false := by
  cases tokens <;> rfl

theorem present_eq_false_iff {v : PyVal} : present v = false ↔ v = .null := by
  cases v <;> simp [present]

/-- **One token**: a data field if it names one, another attribute if not. -/
theorem get_eq {current : Reached} (h : current ≠ .value .null) (token : String) :
    current.get rt token =
      (current.data rt token).getD (.value ((current.attribute rt token).getD .null)) := by
  cases current with
  | order o =>
    rw [Reached.get, Reached.data, Reached.attribute]
    by_cases hmethod : token ∈ orderMethods
    · rw [if_pos hmethod, if_pos hmethod]
      simp only [orderMethods, List.mem_cons, List.not_mem_nil, or_false] at hmethod
      rcases hmethod with rfl | rfl <;> rfl
    · rw [if_neg hmethod, if_neg hmethod]
  | address a => rfl
  | value v =>
    cases v with
    | null => exact absurd rfl h
    | _ => rfl

theorem extractTokens_cons_null {current : Reached} {token : String}
    (h : current.get rt token = .value .null) (tokens : List String) :
    extractTokens rt current (token :: tokens) = .value .null := by
  unfold extractTokens
  rw [h]

theorem extractTokens_cons {current : Reached} {token : String}
    (h : current.get rt token ≠ .value .null) (tokens : List String) :
    extractTokens rt current (token :: tokens) = extractTokens rt (current.get rt token) tokens := by
  rw [extractTokens]
  split
  · next hnull => exact absurd hnull h
  · rfl

/-- Beyond the data fields the loop follows the attributes. -/
theorem extractTokens_value {v : PyVal} (h : v ≠ .null) (tokens : List String) :
    extractTokens rt (.value v) tokens = .value (leadsTo rt v tokens) := by
  induction tokens generalizing v with
  | nil => rfl
  | cons token tokens ih =>
    have hget : (Reached.value v).get rt token =
        .value (((Reached.value v).attribute rt token).getD .null) :=
      get_eq (fun hnull => h (Reached.value.inj hnull)) token
    unfold leadsTo
    cases hattribute : (Reached.value v).attribute rt token with
    | none =>
      rw [hattribute] at hget
      exact extractTokens_cons_null hget tokens
    | some w =>
      rw [hattribute, Option.getD_some] at hget
      by_cases hw : w = .null
      · subst hw
        rw [extractTokens_cons_null hget]
        simp only [leadsTo_null]
      · rw [extractTokens_cons (by rw [hget]; simpa using hw), hget]
        exact ih hw

/-- **The loop** reads what the path denotes, or else has strayed: then the
    path denotes `None`, and something is read. -/
theorem extractTokens_cases {current : Reached} (h : current ≠ .value .null)
    (tokens : List String) :
    (strays rt current tokens = false ∧
      (extractTokens rt current tokens).toVal rt = denoted rt current tokens) ∨
    (strays rt current tokens = true ∧ denoted rt current tokens = .null ∧
      (extractTokens rt current tokens).toVal rt ≠ .null) := by
  induction tokens generalizing current with
  | nil => exact Or.inl ⟨rfl, rfl⟩
  | cons token tokens ih =>
    have hget := @get_eq rt _ h token
    unfold strays denoted
    cases hdata : current.data rt token with
    | some next =>
      rw [hdata, Option.getD_some] at hget
      by_cases hnext : next = .value .null
      · subst hnext
        rw [extractTokens_cons_null hget]
        exact Or.inl ⟨strays_null tokens, (denoted_null tokens).symm⟩
      · rw [extractTokens_cons (by rw [hget]; exact hnext), hget]
        exact ih hnext
    | none =>
      rw [hdata, Option.getD_none] at hget
      cases hattribute : current.attribute rt token with
      | none =>
        rw [hattribute, Option.getD_none] at hget
        rw [extractTokens_cons_null hget]
        exact Or.inl ⟨rfl, rfl⟩
      | some v =>
        rw [hattribute, Option.getD_some] at hget
        by_cases hv : v = .null
        · subst hv
          rw [extractTokens_cons_null hget]
          simp only [leadsTo_null]
          exact Or.inl ⟨rfl, rfl⟩
        · rw [extractTokens_cons (by rw [hget]; simpa using hv), hget, extractTokens_value hv]
          cases hpresent : present (leadsTo rt v tokens) with
          | false => exact Or.inl ⟨hpresent, present_eq_false_iff.mp hpresent⟩
          | true =>
            refine Or.inr ⟨hpresent, rfl, ?_⟩
            intro hnull
            change leadsTo rt v tokens = .null at hnull
            rw [present_eq_false_iff.mpr hnull] at hpresent
            cases hpresent

end

/-! ## Paths -/

/-- `field_path.split(".")` -/
def tokensOf (path : String) : List String := (splitDots path.toList).map String.ofList

/-- What a path denotes in an order. -/
def ExternalOrder.denoted (rt : Runtime) (o : ExternalOrder) (path : String) : PyVal :=
  RulesEnrichment.denoted rt (.order o) (tokensOf path)

def ExternalOrder.strays (rt : Runtime) (o : ExternalOrder) (path : String) : Bool :=
  RulesEnrichment.strays rt (.order o) (tokensOf path)

/-- `exists` holds where something is read. -/
theorem isSatisfiedBy_exists {rt : Runtime} {o : ExternalOrder} {path value : PyVal} {left : PyVal}
    (h : extract rt o path = .ok left) :
    PredicateSpecification.isSatisfiedBy rt ⟨path, .exists, value⟩ o = .ok (present left) := by
  unfold PredicateSpecification.isSatisfiedBy
  rw [h]
  cases left <;> rfl

/-- **Field paths read order data only**, and `exists` holds exactly for the
    paths that denote something, if and only if the path does not stray. -/
theorem extract_denotes_iff (rt : Runtime) (o : ExternalOrder) (path : String) (value : PyVal) :
    (extract rt o (.str path) = .ok (o.denoted rt path) ↔ o.strays rt path = false) ∧
    (PredicateSpecification.isSatisfiedBy rt ⟨.str path, .exists, value⟩ o =
        .ok (present (o.denoted rt path)) ↔
      o.strays rt path = false) := by
  have hextract : extract rt o (.str path) =
      .ok ((extractTokens rt (.order o) (tokensOf path)).toVal rt) := rfl
  rw [isSatisfiedBy_exists hextract, hextract, Except.ok.injEq, Except.ok.injEq]
  have horder : Reached.order o ≠ .value .null := by simp
  unfold ExternalOrder.denoted ExternalOrder.strays
  rcases @extractTokens_cases rt _ horder (tokensOf path) with
    ⟨hstrays, heq⟩ | ⟨hstrays, hnull, hread⟩
  · rw [hstrays, heq]
    exact ⟨iff_of_true rfl rfl, iff_of_true rfl rfl⟩
  · have hpresent : present ((extractTokens rt (.order o) (tokensOf path)).toVal rt) = true := by
      rw [← Bool.not_eq_false, present_eq_false_iff]
      exact hread
    rw [hstrays, hnull, hpresent]
    exact ⟨iff_of_false hread (by simp), by simp [present]⟩

/-- The method `has_hazmat` is found where there is no such datum. -/
theorem method_read_as_datum :
    (Sample.order "ORD-1" Sample.nine).denoted Sample.runtime "has_hazmat" = .null ∧
    extract Sample.runtime (Sample.order "ORD-1" Sample.nine) (.str "has_hazmat") =
      .ok (.foreign "method"
        "<bound method ExternalOrder.has_hazmat of ExternalOrder(order_id='ORD-1')>") ∧
    PredicateSpecification.isSatisfiedBy Sample.runtime ⟨.str "has_hazmat", .exists, .null⟩
      (Sample.order "ORD-1" Sample.nine) = .ok true := by
  refine ⟨?_, ?_, ?_⟩ <;> rfl

end RulesEnrichment
