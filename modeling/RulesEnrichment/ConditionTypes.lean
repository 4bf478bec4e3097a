import RulesEnrichment.ConditionLogic
import RulesEnrichment.FieldPaths

/-! # Conditions that never raise

    A predicate raises where its operator does not suit what it finds in
    the order. What is to be found under a path is known beforehand: the
    scalar members of an order and the members of its addresses have types
    (`fieldType`; the lines and the addresses themselves have none). So a
    predicate can be checked without an order.

    * `accepts_iff`: which operators and values suit the values of a type.
    * `typed_iff`: a predicate on a field with a type passes the check if
      and only if it raises on no order.
    * `wellTyped_iff`: so do conditions on such fields, however they are
      nested.
    * `evaluate_of_sound`: rules that pass are evaluated on every order. -/

namespace RulesEnrichment

open Python ShortCircuit

/-! ## Types of data -/

inductive FieldType where
  | text
  /-- A text or `None`. -/
  | optionalText
  | integer
  /-- An integer or a float. -/
  | number
  | timestamp
  deriving DecidableEq

/-- The values of a type. -/
inductive FieldType.Holds : FieldType → PyVal → Prop
  | text (s : String) : Holds .text (.str s)
  | optionalText (s : Option String) : Holds .optionalText (optionalStr s)
  | integer (i : Int) : Holds .integer (.int i)
  | number (n : PyNumber) : Holds .number n.toVal
  | timestamp (d : DateTime) : Holds .timestamp d.toVal

/-- The type of a member of an order, unless that is an object. -/
def memberType (token : String) : Option FieldType :=
  if token = "order_id" ∨ token = "client_code" ∨ token = "facility_code" ∨
    token = "order_type" ∨ token = "status" then some .text
  else if token = "zone_code" then some .optionalText
  else if token = "priority" then some .integer
  else if token = "total_weight_kg" ∨ token = "total_volume_m3" then some .number
  else if token = "created_at" ∨ token = "updated_at" then some .timestamp
  else none

def isAddress (token : String) : Bool :=
  token = "source_address" ∨ token = "destination_address"

/-- All members of an address are texts. -/
def isAddressMember (token : String) : Bool :=
  token = "name" ∨ token = "address_line_1" ∨ token = "city" ∨ token = "postal_code" ∨
    token = "country_code"

def pathType : List String → Option FieldType
  | [token] => memberType token
  | [address, token] => if isAddress address ∧ isAddressMember token then some .text else none
  | _ => none

/-- The type of the field that a predicate is about, if it has one. -/
def fieldType : PyVal → Option FieldType
  | .str path => pathType (tokensOf path)
  | _ => none

/-! ## The check -/

/-- What Python documents of the parts of the runtime that a predicate
    calls: a pattern is compiled before it is searched for, and a `datetime`
    has a hash. -/
structure Runtime.Documented (rt : Runtime) : Prop where
  compiles : ∀ pattern text text',
    (rt.reSearch pattern text).isOk = (rt.reSearch pattern text').isOk
  hashable : ∀ d : DateTime, rt.hashable d.toVal = true

/-- Whether the values of the type can be ordered with the value of a rule;
    a timestamp is comparable to nothing that JSON can express. -/
def FieldType.comparable : FieldType → PyVal → Bool
  | .text, .str _ => true
  | .optionalText, .str _ => true
  | .integer, v => (asNumber v).isSome
  | .number, v => (asNumber v).isSome
  | _, _ => false

/-- Whether the values of the type can be looked for in the value of a
    rule. -/
def FieldType.searchable : FieldType → PyVal → Bool
  | _, .list _ => true
  | _, .dict _ => true
  | .text, .str _ => true
  | .optionalText, .str _ => true
  | _, _ => false

/-- Whether the pattern is short enough and can be compiled. -/
def usablePattern (rt : Runtime) (pattern : String) : Bool :=
  pattern.length ≤ 128 && (rt.reSearch pattern "").isOk

/-- Whether an operator with the value of a rule suits the type. -/
def FieldType.accepts (rt : Runtime) (t : FieldType) (value : PyVal) : Op → Bool
  | .cmp _ => t.comparable value
  | .isIn => t.searchable value
  | .notIn => t.searchable value
  | .regex => usablePattern rt (pyStr rt value)
  | _ => true

def PredicateSpecification.typed (rt : Runtime) (p : PredicateSpecification) : Bool :=
  match fieldType p.field with
  | some t => t.accepts rt p.value p.op
  | none => false

/-- The conditions can be built, and their predicates pass the check. -/
def WellTyped (rt : Runtime) (conditions : JsonObject) : Bool :=
  match fromJson rt conditions.toVal with
  | .ok s => s.formula.atoms.all (·.typed rt)
  | .error _ => false

/-! ## Operators on the values of a type -/

section operators

variable {rt : Runtime} {t : FieldType} {value : PyVal}

/-- A value of an optional text that is there is a text. -/
theorem FieldType.Holds.present_text {left : PyVal} (h : FieldType.Holds .optionalText left)
    (hnull : left ≠ .null) : ∃ s, left = .str s := by
  cases h with
  | optionalText s =>
    cases s with
    | none => exact absurd rfl hnull
    | some s => exact ⟨s, rfl⟩

/-- Every type has a value that is there. -/
theorem FieldType.exists_present (t : FieldType) : ∃ left, t.Holds left ∧ left ≠ .null := by
  cases t with
  | text => exact ⟨_, .text "", by simp⟩
  | optionalText => exact ⟨_, .optionalText (some ""), by simp [optionalStr]⟩
  | integer => exact ⟨_, .integer 0, by simp⟩
  | number => exact ⟨_, .number (.int 0), by simp [PyNumber.toVal]⟩
  | timestamp => exact ⟨_, .timestamp { year := 1, month := 1, day := 1 }, by simp [DateTime.toVal]⟩

theorem asNumber_toVal (n : PyNumber) : ∃ a, asNumber n.toVal = some a := by
  cases n <;> exact ⟨_, rfl⟩

theorem pyCompare_number {op : CmpOp} {n : PyNumber} {a : Int × Nat}
    (h : asNumber value = some a) : ∃ b, pyCompare op n.toVal value = .ok b := by
  obtain ⟨c, hc⟩ := asNumber_toVal n
  refine ⟨op.holds (compareNumbers c a), ?_⟩
  cases n <;> cases value <;> simp_all [PyNumber.toVal, asNumber, pyCompare]

theorem pyCompare_number_error {op : CmpOp} {i : Int} (h : asNumber value = none) :
    ∃ e, pyCompare op (.int i) value = .error e := by
  cases value <;> simp_all [asNumber, pyCompare]

theorem pyCompare_timestamp {op : CmpOp} (d : DateTime) :
    ∃ e, pyCompare op d.toVal value = .error e := by
  cases value <;> exact ⟨_, rfl⟩

/-- A text is ordered with texts only. -/
theorem pyCompare_text {op : CmpOp} {s : String} :
    (∃ b, pyCompare op (.str s) value = .ok b) ↔ ∃ s', value = .str s' := by
  cases value with
  | str s' => exact ⟨fun _ => ⟨s', rfl⟩, fun _ => ⟨_, rfl⟩⟩
  | _ =>
    constructor
    · rintro ⟨b, hb⟩
      cases hb
    · rintro ⟨s', hs'⟩
      cases hs'

/-- **Ordering**: on the values of a type. -/
theorem comparable_iff (op : CmpOp) :
    (∀ left, t.Holds left → left ≠ .null → ∃ b, pyCompare op left value = .ok b) ↔
      t.comparable value = true := by
  have htext : (∃ s', value = .str s') ↔ FieldType.comparable .text value = true := by
    cases value <;> simp [FieldType.comparable]
  -- a value that is not a number fails against the integer 0
  have hnumber : (∃ b, pyCompare op (.int 0) value = .ok b) → (asNumber value).isSome = true := by
    rintro ⟨b, hb⟩
    by_contra hno
    obtain ⟨e, he⟩ : ∃ e, pyCompare op (.int 0) value = .error e :=
      pyCompare_number_error (Option.not_isSome_iff_eq_none.mp hno)
    cases hb.symm.trans he
  cases t with
  | text =>
    rw [← htext]
    constructor
    · intro h
      exact pyCompare_text.mp (h _ (.text "") (by simp))
    · intro hs left hleft _
      cases hleft
      exact pyCompare_text.mpr hs
  | optionalText =>
    have hsame : FieldType.comparable .optionalText value = FieldType.comparable .text value := by
      cases value <;> rfl
    rw [hsame, ← htext]
    constructor
    · intro h
      exact pyCompare_text.mp (h _ (.optionalText (some "")) (by simp))
    · intro hs left hleft hnull
      obtain ⟨s, rfl⟩ := hleft.present_text hnull
      exact pyCompare_text.mpr hs
  | integer =>
    constructor
    · intro h
      exact hnumber (h _ (.integer 0) (by simp))
    · intro hsome left hleft _
      obtain ⟨a, ha⟩ := Option.isSome_iff_exists.mp hsome
      cases hleft with
      | integer i => exact pyCompare_number (n := .int i) ha
  | number =>
    constructor
    · intro h
      exact hnumber (h _ (.number (.int 0)) (by simp))
    · intro hsome left hleft _
      obtain ⟨a, ha⟩ := Option.isSome_iff_exists.mp hsome
      cases hleft with
      | number n => exact pyCompare_number ha
  | timestamp =>
    constructor
    · intro h
      let d : DateTime := { year := 1, month := 1, day := 1 }
      obtain ⟨b, hb⟩ := h _ (.timestamp d) (by simp [DateTime.toVal])
      obtain ⟨e, he⟩ : ∃ e, pyCompare op d.toVal value = .error e := pyCompare_timestamp d
      cases hb.symm.trans he
    · intro h
      cases h

/-- Only texts are looked for in a text. -/
theorem pyIn_text {left : PyVal} {text : String} :
    (∃ b, pyIn rt left (.str text) = .ok b) ↔ ∃ s, left = .str s := by
  cases left with
  | str s => exact ⟨fun _ => ⟨s, rfl⟩, fun _ => ⟨_, rfl⟩⟩
  | _ =>
    constructor
    · rintro ⟨b, hb⟩
      cases hb
    · rintro ⟨s, hs⟩
      cases hs

/-- The keys of a dictionary are looked up by anything that has a hash. -/
theorem pyIn_dict (hrt : rt.Documented) {left : PyVal} (hleft : t.Holds left)
    (hnull : left ≠ .null) (es : List (String × PyVal)) :
    ∃ b, pyIn rt left (.dict es) = .ok b := by
  cases hleft with
  | text s => exact ⟨_, rfl⟩
  | optionalText s =>
    cases s with
    | none => exact absurd rfl hnull
    | some s => exact ⟨_, rfl⟩
  | integer i => exact ⟨_, rfl⟩
  | number n => cases n <;> exact ⟨_, rfl⟩
  | timestamp d => exact ⟨false, if_pos (hrt.hashable d)⟩

/-- **Searching**: on the values of a type. -/
theorem searchable_iff (hrt : rt.Documented) :
    (∀ left, t.Holds left → left ≠ .null → ∃ b, pyIn rt left value = .ok b) ↔
      t.searchable value = true := by
  obtain ⟨x, hx, hpresent⟩ := t.exists_present
  cases value with
  | list ys =>
    have hyes : t.searchable (.list ys) = true := by cases t <;> rfl
    exact iff_of_true (fun left _ _ => ⟨_, rfl⟩) hyes
  | dict es =>
    have hyes : t.searchable (.dict es) = true := by cases t <;> rfl
    exact iff_of_true (fun left hleft hnull => pyIn_dict hrt hleft hnull es) hyes
  | str text =>
    simp only [pyIn_text]
    cases t with
    | text =>
      refine iff_of_true ?_ rfl
      intro left hleft _
      cases hleft with
      | text s => exact ⟨s, rfl⟩
    | optionalText => exact iff_of_true (fun left hleft hnull => hleft.present_text hnull) rfl
    | integer =>
      refine iff_of_false ?_ (by simp [FieldType.searchable])
      intro h
      obtain ⟨s, hs⟩ := h x hx hpresent
      cases hx
      cases hs
    | number =>
      refine iff_of_false ?_ (by simp [FieldType.searchable])
      intro h
      obtain ⟨s, hs⟩ := h x hx hpresent
      cases hx with
      | number n => cases n <;> cases hs
    | timestamp =>
      refine iff_of_false ?_ (by simp [FieldType.searchable])
      intro h
      obtain ⟨s, hs⟩ := h x hx hpresent
      cases hx
      cases hs
  | _ =>
    -- nothing else can be iterated
    refine iff_of_false ?_ (by cases t <;> simp [FieldType.searchable])
    intro h
    obtain ⟨b, hb⟩ := h x hx hpresent
    cases hb

end operators

/-! ## Predicates -/

section predicates

variable {rt : Runtime} {t : FieldType} {p : PredicateSpecification} {field value left : PyVal}

/-- An absent value makes no operator raise. -/
theorem test_null (p : PredicateSpecification) : p.test rt .null = .ok false := by
  unfold PredicateSpecification.test
  cases p.op <;> rfl

theorem test_cmp {op : CmpOp} (h : left ≠ .null) :
    PredicateSpecification.test rt ⟨field, .cmp op, value⟩ left = pyCompare op left value := by
  cases left with
  | null => exact absurd rfl h
  | _ => rfl

theorem test_isIn (h : left ≠ .null) :
    PredicateSpecification.test rt ⟨field, .isIn, value⟩ left = pyIn rt left value := by
  cases left with
  | null => exact absurd rfl h
  | _ => rfl

theorem test_notIn (h : left ≠ .null) :
    PredicateSpecification.test rt ⟨field, .notIn, value⟩ left =
      (pyIn rt left value).map (!·) := by
  cases left with
  | null => exact absurd rfl h
  | _ => rfl

/-- A pattern raises on every value that is there, or on none. -/
theorem test_regex (hrt : rt.Documented) (h : left ≠ .null) :
    (∃ b, PredicateSpecification.test rt ⟨field, .regex, value⟩ left = .ok b) ↔
      usablePattern rt (pyStr rt value) = true := by
  have heq : PredicateSpecification.test rt ⟨field, .regex, value⟩ left =
      if 128 < (pyStr rt value).length then
        .error ⟨.InvalidRuleDefinitionError, "regex too long"⟩
      else rt.reSearch (pyStr rt value) (pyStr rt left) := by
    cases left with
    | null => exact absurd rfl h
    | _ => rfl
  rw [heq]
  unfold usablePattern
  by_cases hlength : 128 < (pyStr rt value).length
  · rw [if_pos hlength, decide_eq_false (by omega), Bool.false_and]
    exact iff_of_false (fun ⟨b, hb⟩ => by cases hb) Bool.false_ne_true
  · rw [if_neg hlength, decide_eq_true (by omega), Bool.true_and,
      hrt.compiles (pyStr rt value) "" (pyStr rt left)]
    cases rt.reSearch (pyStr rt value) (pyStr rt left) with
    | ok b => exact iff_of_true ⟨b, rfl⟩ rfl
    | error e => exact iff_of_false (fun ⟨b, hb⟩ => by cases hb) Bool.false_ne_true

theorem map_ok_iff {x : Except PyErr Bool} : (∃ b, x.map (!·) = .ok b) ↔ ∃ b, x = .ok b := by
  cases x with
  | ok b => exact iff_of_true ⟨!b, rfl⟩ ⟨b, rfl⟩
  | error e => exact iff_of_false (fun ⟨b, hb⟩ => by cases hb) (fun ⟨b, hb⟩ => by cases hb)

/-- **The check** of an operator with a value: it raises on no value of the
    type. -/
theorem accepts_iff (hrt : rt.Documented) :
    (∀ left, t.Holds left → ∃ b, p.test rt left = .ok b) ↔ t.accepts rt p.value p.op = true := by
  obtain ⟨field, op, value⟩ := p
  have hpresent : (∀ left, t.Holds left → ∃ b,
        PredicateSpecification.test rt ⟨field, op, value⟩ left = .ok b) ↔
      ∀ left, t.Holds left → left ≠ .null →
        ∃ b, PredicateSpecification.test rt ⟨field, op, value⟩ left = .ok b := by
    constructor
    · exact fun h left hleft _ => h left hleft
    · intro h left hleft
      by_cases hnull : left = .null
      · rw [hnull]
        exact ⟨false, test_null _⟩
      · exact h left hleft hnull
  rw [hpresent]
  cases op with
  | cmp op =>
    show _ ↔ t.comparable value = true
    rw [← comparable_iff op]
    refine forall₃_congr fun left _ hnull => ?_
    rw [test_cmp hnull]
  | isIn =>
    show _ ↔ t.searchable value = true
    rw [← searchable_iff hrt]
    refine forall₃_congr fun left _ hnull => ?_
    rw [test_isIn hnull]
  | notIn =>
    show _ ↔ t.searchable value = true
    rw [← searchable_iff hrt]
    refine forall₃_congr fun left _ hnull => ?_
    rw [test_notIn hnull, map_ok_iff]
  | regex =>
    show _ ↔ usablePattern rt (pyStr rt value) = true
    obtain ⟨x, hx, hthere⟩ := t.exists_present
    constructor
    · exact fun h => (test_regex hrt hthere).mp (h x hx hthere)
    · exact fun h left _ hnull => (test_regex hrt hnull).mpr h
  | _ =>
    refine iff_of_true ?_ rfl
    intro left _ hnull
    cases left with
    | null => exact absurd rfl hnull
    | _ => exact ⟨_, rfl⟩

end predicates

/-! ## Data fields -/

section fields

variable {rt : Runtime} {t : FieldType} {o : ExternalOrder}

/-- An order to put data in. -/
def ExternalOrder.blank : ExternalOrder where
  orderId := ""
  clientCode := ""
  facilityCode := ""
  zoneCode := none
  orderType := ""
  priority := 0
  status := ""
  sourceAddress := ⟨"", "", "", "", ""⟩
  destinationAddress := ⟨"", "", "", "", ""⟩
  totalWeightKg := .int 0
  totalVolumeM3 := .int 0
  lines := []
  createdAt := { year := 1, month := 1, day := 1 }
  updatedAt := { year := 1, month := 1, day := 1 }

/-- Reading an order gives exactly the values of the type. -/
structure FieldType.ReadBy (t : FieldType) (get : ExternalOrder → PyVal) : Prop where
  holds : ∀ o, t.Holds (get o)
  onto : ∀ v, t.Holds v → ∃ o, get o = v

theorem readBy_text {get : ExternalOrder → String} (put : String → ExternalOrder)
    (h : ∀ s, get (put s) = s) : FieldType.ReadBy .text fun o => .str (get o) where
  holds o := .text (get o)
  onto v hv := by
    cases hv with
    | text s => exact ⟨put s, by rw [h]⟩

theorem readBy_number {get : ExternalOrder → PyNumber} (put : PyNumber → ExternalOrder)
    (h : ∀ n, get (put n) = n) : FieldType.ReadBy .number fun o => (get o).toVal where
  holds o := .number (get o)
  onto v hv := by
    cases hv with
    | number n => exact ⟨put n, by rw [h]⟩

theorem readBy_timestamp {get : ExternalOrder → DateTime} (put : DateTime → ExternalOrder)
    (h : ∀ d, get (put d) = d) : FieldType.ReadBy .timestamp fun o => (get o).toVal where
  holds o := .timestamp (get o)
  onto v hv := by
    cases hv with
    | timestamp d => exact ⟨put d, by rw [h]⟩

/-- The members that have a type. -/
theorem memberType_cases {token : String} (h : memberType token = some t) :
    (t = .text ∧ (token = "order_id" ∨ token = "client_code" ∨ token = "facility_code" ∨
      token = "order_type" ∨ token = "status")) ∨
    (t = .optionalText ∧ token = "zone_code") ∨ (t = .integer ∧ token = "priority") ∨
    (t = .number ∧ (token = "total_weight_kg" ∨ token = "total_volume_m3")) ∨
    (t = .timestamp ∧ (token = "created_at" ∨ token = "updated_at")) := by
  unfold memberType at h
  split at h
  · next hname => exact Or.inl ⟨(Option.some.inj h).symm, hname⟩
  · split at h
    · next hname => exact Or.inr (Or.inl ⟨(Option.some.inj h).symm, hname⟩)
    · split at h
      · next hname => exact Or.inr (Or.inr (Or.inl ⟨(Option.some.inj h).symm, hname⟩))
      · split at h
        · next hname => exact Or.inr (Or.inr (Or.inr (Or.inl ⟨(Option.some.inj h).symm, hname⟩)))
        · split at h
          · next hname => exact Or.inr (Or.inr (Or.inr (Or.inr ⟨(Option.some.inj h).symm, hname⟩)))
          · cases h

/-- A member of an order has any value of its type, and no other. -/
theorem memberType_readBy (rt : Runtime) {token : String} (h : memberType token = some t) :
    ∃ get, (∀ o : ExternalOrder, o.member rt token = some (.value (get o))) ∧ t.ReadBy get := by
  let blank := ExternalOrder.blank
  rcases memberType_cases h with ⟨rfl, hname⟩ | ⟨rfl, rfl⟩ | ⟨rfl, rfl⟩ | ⟨rfl, hname⟩ | ⟨rfl, hname⟩
  · rcases hname with rfl | rfl | rfl | rfl | rfl
    · exact ⟨_, fun _ => rfl, readBy_text (fun s => { blank with orderId := s }) fun _ => rfl⟩
    · exact ⟨_, fun _ => rfl, readBy_text (fun s => { blank with clientCode := s }) fun _ => rfl⟩
    · exact ⟨_, fun _ => rfl, readBy_text (fun s => { blank with facilityCode := s }) fun _ => rfl⟩
    · exact ⟨_, fun _ => rfl, readBy_text (fun s => { blank with orderType := s }) fun _ => rfl⟩
    · exact ⟨_, fun _ => rfl, readBy_text (fun s => { blank with status := s }) fun _ => rfl⟩
  · refine ⟨_, fun _ => rfl, fun o => .optionalText o.zoneCode, ?_⟩
    intro v hv
    cases hv with
    | optionalText z => exact ⟨{ blank with zoneCode := z }, rfl⟩
  · refine ⟨_, fun _ => rfl, fun o => .integer o.priority, ?_⟩
    intro v hv
    cases hv with
    | integer i => exact ⟨{ blank with priority := i }, rfl⟩
  · rcases hname with rfl | rfl
    · exact ⟨_, fun _ => rfl, readBy_number (fun n => { blank with totalWeightKg := n }) fun _ => rfl⟩
    · exact ⟨_, fun _ => rfl, readBy_number (fun n => { blank with totalVolumeM3 := n }) fun _ => rfl⟩
  · rcases hname with rfl | rfl
    · exact ⟨_, fun _ => rfl, readBy_timestamp (fun d => { blank with createdAt := d }) fun _ => rfl⟩
    · exact ⟨_, fun _ => rfl, readBy_timestamp (fun d => { blank with updatedAt := d }) fun _ => rfl⟩

/-- A member of an address is any text. -/
theorem addressMember_readBy {token : String} (h : isAddressMember token = true) :
    ∃ get : Address → String, (∀ a : Address, a.member token = some (.value (.str (get a)))) ∧
      ∀ s, ∃ a, get a = s := by
  have hname := of_decide_eq_true h
  rcases hname with rfl | rfl | rfl | rfl | rfl
  · exact ⟨_, fun _ => rfl, fun s => ⟨⟨s, "", "", "", ""⟩, rfl⟩⟩
  · exact ⟨_, fun _ => rfl, fun s => ⟨⟨"", s, "", "", ""⟩, rfl⟩⟩
  · exact ⟨_, fun _ => rfl, fun s => ⟨⟨"", "", s, "", ""⟩, rfl⟩⟩
  · exact ⟨_, fun _ => rfl, fun s => ⟨⟨"", "", "", s, ""⟩, rfl⟩⟩
  · exact ⟨_, fun _ => rfl, fun s => ⟨⟨"", "", "", "", s⟩, rfl⟩⟩

/-- The loop of `_extract` over one member, -/
theorem extractTokens_member {token : String} {v : PyVal}
    (h : o.member rt token = some (.value v)) :
    (extractTokens rt (.order o) [token]).toVal rt = v := by
  have hget : (Reached.order o).get rt token = .value v := by
    show (o.member rt token).getD _ = _
    rw [h, Option.getD_some]
  by_cases hnull : v = .null
  · rw [extractTokens_cons_null (by rw [hget, hnull]), hnull]
    rfl
  · rw [extractTokens_cons (by rw [hget]; simpa using hnull), hget]
    rfl

/-- and over a member of an address. -/
theorem extractTokens_address {name token : String} {a : Address} {s : String}
    (haddress : o.member rt name = some (.address a))
    (h : a.member token = some (.value (.str s))) :
    (extractTokens rt (.order o) [name, token]).toVal rt = .str s := by
  have hget : (Reached.order o).get rt name = .address a := by
    show (o.member rt name).getD _ = _
    rw [haddress, Option.getD_some]
  have hget' : (Reached.address a).get rt token = .value (.str s) := by
    show (a.member token).getD _ = _
    rw [h, Option.getD_some]
  rw [extractTokens_cons (by rw [hget]; simp), hget, extractTokens_cons (by rw [hget']; simp), hget']
  rfl

/-- **Typed paths.** What `_extract` finds under a path with a type is of
    that type, and every value of the type is found in some order. -/
theorem fieldType_readBy (rt : Runtime) {field : PyVal} (h : fieldType field = some t) :
    ∃ get, (∀ o, extract rt o field = .ok (get o)) ∧ t.ReadBy get := by
  unfold fieldType at h
  split at h
  · next path =>
    have hextract : ∀ o, extract rt o (.str path) =
        .ok ((extractTokens rt (.order o) (tokensOf path)).toVal rt) := fun _ => rfl
    simp only [hextract, Except.ok.injEq]
    unfold pathType at h
    split at h
    · next token htokens =>
      obtain ⟨get, hmember, hread⟩ := memberType_readBy rt h
      exact ⟨get, fun o => by rw [htokens]; exact extractTokens_member (hmember o), hread⟩
    · next name token htokens =>
      split at h
      · next hnames =>
        obtain rfl := Option.some.inj h
        obtain ⟨get, hmember, honto⟩ := addressMember_readBy hnames.2
        rw [htokens]
        rcases of_decide_eq_true hnames.1 with rfl | rfl
        · refine ⟨fun o => .str (get o.sourceAddress),
            fun o => extractTokens_address rfl (hmember _), fun o => .text _, ?_⟩
          rintro v ⟨s⟩
          obtain ⟨a, ha⟩ := honto s
          exact ⟨{ ExternalOrder.blank with sourceAddress := a }, by rw [ha]⟩
        · refine ⟨fun o => .str (get o.destinationAddress),
            fun o => extractTokens_address rfl (hmember _), fun o => .text _, ?_⟩
          rintro v ⟨s⟩
          obtain ⟨a, ha⟩ := honto s
          exact ⟨{ ExternalOrder.blank with destinationAddress := a }, by rw [ha]⟩
      · cases h
    · cases h
  · cases h

end fields

/-- **Typed predicates.** A predicate on a field with a type passes the
    check if and only if it raises on no order. -/
theorem typed_iff {rt : Runtime} (hrt : rt.Documented) {p : PredicateSpecification}
    (hfield : (fieldType p.field).isSome = true) :
    p.typed rt = true ↔ ∀ o, ∃ b, p.isSatisfiedBy rt o = .ok b := by
  obtain ⟨t, ht⟩ := Option.isSome_iff_exists.mp hfield
  obtain ⟨get, hextract, hread⟩ := fieldType_readBy rt ht
  unfold PredicateSpecification.typed PredicateSpecification.isSatisfiedBy
  simp only [ht, hextract]
  rw [← accepts_iff hrt]
  constructor
  · exact fun h o => h _ (hread.holds o)
  · intro h v hv
    obtain ⟨o, rfl⟩ := hread.onto v hv
    exact h o

/-! ## Conditions -/

/-- The predicates of the conditions are about fields with a type: scalar
    members of the order and members of its addresses. -/
def AboutData (rt : Runtime) (conditions : JsonObject) : Prop :=
  ∀ s, fromJson rt conditions.toVal = .ok s →
    ∀ p ∈ s.formula.atoms, (fieldType p.field).isSome = true

theorem wellTyped_eq_true {rt : Runtime} {conditions : JsonObject} :
    WellTyped rt conditions = true ↔ ∃ s, fromJson rt conditions.toVal = .ok s ∧
      ∀ p ∈ s.formula.atoms, p.typed rt = true := by
  unfold WellTyped
  rcases fromJson rt conditions.toVal with e | s
  · simp
  · simp [List.all_eq_true]

theorem isSome_fieldType {rt : Runtime} {p : PredicateSpecification} (h : p.typed rt = true) :
    (fieldType p.field).isSome = true := by
  unfold PredicateSpecification.typed at h
  cases hfield : fieldType p.field with
  | none =>
    rw [hfield] at h
    cases h
  | some t => rfl

/-- Conditions that pass the check raise on no order. -/
theorem nothingRaises_of_wellTyped {rt : Runtime} (hrt : rt.Documented) {conditions : JsonObject}
    (h : WellTyped rt conditions = true) (o : ExternalOrder) : NothingRaises rt o conditions := by
  obtain ⟨s, hs, hatoms⟩ := wellTyped_eq_true.mp h
  exact ⟨s, hs, fun p hp => (typed_iff hrt (isSome_fieldType (hatoms p hp))).mp (hatoms p hp) o⟩

/-- **Typed conditions.** Conditions on fields with a type, however nested,
    pass the check if and only if they can be built and none of their
    predicates raises on any order. -/
theorem wellTyped_iff {rt : Runtime} (hrt : rt.Documented) {conditions : JsonObject}
    (habout : AboutData rt conditions) :
    WellTyped rt conditions = true ↔ ∀ o, NothingRaises rt o conditions := by
  constructor
  · exact nothingRaises_of_wellTyped hrt
  · intro h
    obtain ⟨s, hs, _⟩ := h .blank
    refine wellTyped_eq_true.mpr ⟨s, hs, ?_⟩
    intro p hp
    refine (typed_iff hrt (habout s hs p hp)).mpr ?_
    intro o
    obtain ⟨s', hs', hatoms⟩ := h o
    obtain rfl := Except.ok.inj (hs.symm.trans hs')
    exact hatoms p hp

namespace Sample

theorem documented_runtime : runtime.Documented where
  compiles _ _ _ := rfl
  hashable _ := rfl

/-- A bound on the weight, in quotes by mistake, behind a country. -/
def quotedWeight : JsonObject := ⟨[("or", .list [isItalian, .dict [("field", .str "total_weight_kg"),
  ("op", .str "gte"), ("value", .str "10")]])], by decide⟩

end Sample

/-- A slip that no Italian order brings to light. -/
theorem wellTyped_iff_quoted : ∃ o, ¬ NothingRaises Sample.runtime o Sample.quotedWeight := by
  have habout : AboutData Sample.runtime Sample.quotedWeight := by
    intro s hs p hp
    rw [← Except.ok.inj hs] at hp
    rcases List.mem_cons.mp hp with rfl | hp
    · decide
    · rw [List.mem_singleton.mp hp]
      decide
  by_contra h
  have hall : ∀ o, NothingRaises Sample.runtime o Sample.quotedWeight :=
    fun o => Classical.byContradiction fun ho => h ⟨o, ho⟩
  exact absurd ((wellTyped_iff Sample.documented_runtime habout).mpr hall) (by decide)

/-! ## Rules -/

/-- The conditions pass the check, and the bounds of the validity can be
    converted to UTC. -/
structure EnrichmentRule.Sound (rt : Runtime) (r : EnrichmentRule) : Prop where
  typed : WellTyped rt r.conditionsJson = true
  validFrom : ∃ i, optionalUtc r.validFrom = .ok i
  validTo : ∃ i, optionalUtc r.validTo = .ok i

section

variable {rt : Runtime} {now : DateTime} {r : EnrichmentRule}

theorem isValidAt_ok {i : Int} (hnow : now.asUtcInstant = .ok i)
    (hfrom : ∃ i, optionalUtc r.validFrom = .ok i) (hto : ∃ i, optionalUtc r.validTo = .ok i) :
    ∃ b, r.isValidAt now = .ok b := by
  obtain ⟨f, hf⟩ := hfrom
  obtain ⟨t, ht⟩ := hto
  unfold EnrichmentRule.isValidAt
  rw [hnow, hf, ht]
  simp only
  split
  · exact ⟨false, rfl⟩
  · split
    · exact ⟨false, rfl⟩
    · exact ⟨r.isActive, rfl⟩

theorem EnrichmentRule.Sound.evaluates (h : r.Sound rt) (hrt : rt.Documented) {i : Int}
    (hnow : now.asUtcInstant = .ok i) (o : ExternalOrder) : r.Evaluates rt o now := by
  obtain ⟨b, hb⟩ := isValidAt_ok hnow h.validFrom h.validTo
  cases b with
  | false => exact Or.inl hb
  | true => exact Or.inr ⟨hb, matches_of_nothingRaises (r := r) (nothingRaises_of_wellTyped hrt h.typed o)⟩

/-- **Sound rules** are evaluated on every order. -/
theorem evaluate_of_sound (hrt : rt.Documented) {i : Int} (hnow : now.asUtcInstant = .ok i)
    {rules : List EnrichmentRule} (h : ∀ r ∈ rules, r.Sound rt) (o : ExternalOrder) :
    evaluate rt o rules now = .ok (decisionOf o now (matchingRules rt o now rules)) :=
  evaluate_of_all fun r hr => (h r hr).evaluates hrt hnow o

end

end RulesEnrichment
