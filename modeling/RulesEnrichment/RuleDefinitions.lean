import RulesEnrichment.ProcessStep

/-! # Bad rule definitions

    The conditions of a rule are any JSON object. Building the
    specification goes through its parts in document order, evaluating it
    asks its predicates in turn; either ends with the first fault it meets.
    A fault is reported, as an `InvalidRuleDefinitionError`, or it escapes
    as another exception.

    Which parts and which predicates have which fault is said here on the
    document and the order alone (`Part.fault`, `PredicateSpecification.fault`);
    `reportsBadDefinition_iff` says when nothing escapes. -/

namespace RulesEnrichment

open Python

/-- How an exception ends an evaluation. -/
inductive Fault where
  /-- As an `InvalidRuleDefinitionError`. -/
  | reported
  /-- As any other exception. -/
  | escaped
  deriving DecidableEq

/-- The fault that a computation ended with. -/
def faultOf {α : Type} : Except PyErr α → Option Fault
  | .ok _ => none
  | .error e => some (if e.cls = .InvalidRuleDefinitionError then .reported else .escaped)

@[simp] theorem faultOf_ok {α : Type} (a : α) : faultOf (.ok a) = none := rfl

theorem faultOf_map {α β : Type} (f : α → β) (x : Except PyErr α) :
    faultOf (x.map f) = faultOf x := by
  rcases x with e | a <;> rfl

theorem faultOf_ne_escaped_iff {α : Type} {x : Except PyErr α} :
    faultOf x ≠ some .escaped ↔ ∀ e, x = .error e → e.cls = .InvalidRuleDefinitionError := by
  rcases x with e | a
  · by_cases he : e.cls = .InvalidRuleDefinitionError <;> simp [faultOf, he]
  · simp

/-! ## The document as a tree -/

/-- A part of the document that is neither an `and` nor an `or`. -/
inductive Part where
  /-- An object without either key. -/
  | predicate (es : List (String × PyVal))
  /-- An item that is not an object. -/
  | item (v : PyVal)
  /-- What stands under `and` or `or` and cannot be iterated. -/
  | members (v : PyVal)

inductive Conditions where
  | part (p : Part)
  | all (items : List Conditions)
  | any (items : List Conditions)

namespace Conditions

/-- The items of a string or of an object are strings. -/
def strings (ss : List String) : List Conditions := ss.map fun s => .part (.item (.str s))

mutual

def read : PyVal → Conditions
  | .dict es =>
    match readKey "and" .all es with
    | some c => c
    | none =>
      match readKey "or" .any es with
      | some c => c
      | none => .part (.predicate es)
  | v => .part (.item v)

/-- What stands under the key, if the key is there. -/
def readKey (key : String) (group : List Conditions → Conditions) :
    List (String × PyVal) → Option Conditions
  | [] => none
  | (k, v) :: es => if k = key then some (readMembers group v) else readKey key group es

def readMembers (group : List Conditions → Conditions) : PyVal → Conditions
  | .list xs => group (readList xs)
  | .str s => group (strings (s.toList.map String.singleton))
  | .dict es => group (strings (es.map Prod.fst))
  | v => .part (.members v)

def readList : List PyVal → List Conditions
  | [] => []
  | x :: xs => read x :: readList xs

end

mutual

/-- The parts in document order. -/
def parts : Conditions → List Part
  | .part p => [p]
  | .all items => partsList items
  | .any items => partsList items

def partsList : List Conditions → List Part
  | [] => []
  | c :: cs => parts c ++ partsList cs

end

end Conditions

/-- The operator of a predicate, if it is one of the allowed ones. -/
def opOf (es : List (String × PyVal)) : Option Op :=
  match getKey es "op" with
  | .str s => Op.parse s
  | _ => none

/-- What is wrong with a part. -/
def Part.fault : Part → Option Fault
  | .predicate es =>
    if !truthy (getKey es "field") || !truthy (getKey es "op") then some .reported
    else
      match getKey es "op" with
      | .list _ => some .escaped
      | .dict _ => some .escaped
      | _ => if (opOf es).isSome then none else some .reported
  | .item _ => some .escaped
  | .members _ => some .escaped

/-! ## Building the specification -/

/-- The predicate that a part describes. -/
def Part.toSpec : Part → Specification
  | .predicate es => .predicate ⟨getKey es "field", (opOf es).getD .exists, getKey es "value"⟩
  | _ => .and []

namespace Conditions

mutual

def toSpec : Conditions → Specification
  | .part p => p.toSpec
  | .all items => .and (toSpecs items)
  | .any items => .or (toSpecs items)

def toSpecs : List Conditions → List Specification
  | [] => []
  | c :: cs => toSpec c :: toSpecs cs

end

/-- A computation builds the specification of the conditions, or ends with
    the first fault of their parts. -/
structure Builds (x : Except PyErr Specification) (c : Conditions) : Prop where
  fault : faultOf x = c.parts.findSome? Part.fault
  spec : ∀ s, x = .ok s → s = c.toSpec

structure BuildsAll (x : Except PyErr (List Specification)) (cs : List Conditions) : Prop where
  fault : faultOf x = (partsList cs).findSome? Part.fault
  specs : ∀ ss, x = .ok ss → ss = toSpecs cs

variable {rt : Runtime}

/-- A part on which the building raises. -/
theorem Builds.of_error {e : PyErr} {p : Part}
    (h : p.fault = faultOf (.error e : Except PyErr Specification)) :
    Builds (.error e) (.part p) where
  fault := by rw [parts, List.findSome?_singleton, h]
  spec _ hs := by cases hs

/-- A group of conditions and the specification it becomes: `and`, or `or`. -/
structure Groups (group : List Conditions → Conditions)
    (node : List Specification → Specification) : Prop where
  parts : ∀ cs, (group cs).parts = partsList cs
  spec : ∀ cs, (group cs).toSpec = node (toSpecs cs)

theorem groups_all : Groups .all .and := ⟨fun _ => rfl, fun _ => rfl⟩

theorem groups_any : Groups .any .or := ⟨fun _ => rfl, fun _ => rfl⟩

theorem BuildsAll.group {x : Except PyErr (List Specification)} {cs : List Conditions}
    (h : BuildsAll x cs) {group : List Conditions → Conditions}
    {node : List Specification → Specification} (hg : Groups group node) :
    Builds (x.map node) (group cs) where
  fault := by rw [faultOf_map, hg.parts, h.fault]
  spec s hs := by
    rcases x with e | ss
    · cases hs
    · rw [hg.spec, ← h.specs ss rfl]
      exact (Except.ok.inj hs).symm

theorem builds_str (s : String) : Builds (fromJsonStr s) (.part (.item (.str s))) := by
  unfold fromJsonStr
  split
  · exact Builds.of_error rfl
  · exact Builds.of_error rfl

theorem BuildsAll.nil : BuildsAll (.ok []) [] where
  fault := rfl
  specs _ h := (Except.ok.inj h).symm

/-- One item, then the rest. -/
theorem BuildsAll.cons {x : Except PyErr Specification} {c : Conditions}
    {xs : Except PyErr (List Specification)} {cs : List Conditions} (h : Builds x c)
    (hs : BuildsAll xs cs) {all : Except PyErr (List Specification)}
    (herror : ∀ e, x = .error e → all = .error e)
    (hok : ∀ s, x = .ok s → all = xs.map (s :: ·)) : BuildsAll all (c :: cs) := by
  rcases x with e | s
  · rw [herror e rfl]
    refine ⟨?_, fun _ h => by cases h⟩
    have hfault := h.fault
    rw [partsList, List.findSome?_append, ← hfault]
    rfl
  · rw [hok s rfl]
    refine ⟨?_, ?_⟩
    · have hfault := h.fault
      rw [partsList, List.findSome?_append, ← hfault, faultOf_map, hs.fault]
      rfl
    · intro ss hss
      rcases xs with e | ts
      · cases hss
      · have hts := hs.specs ts rfl
        have hs' := h.spec s rfl
        rw [← Except.ok.inj hss, hts, hs']
        rfl

theorem buildsAll_strs (ss : List String) : BuildsAll (fromJsonStrs ss) (strings ss) := by
  induction ss with
  | nil => exact BuildsAll.nil
  | cons s ss ih =>
    refine BuildsAll.cons (builds_str s) ih ?_ ?_
    · intro e he
      unfold fromJsonStrs
      rw [he]
    · intro spec hspec
      conv_lhs => unfold fromJsonStrs
      rw [hspec]

/-- `__post_init__` refuses what is not an allowed operator, and cannot
    look up a list or an object. -/
theorem builds_mk? {es : List (String × PyVal)}
    (hkeys : ¬ (!truthy (getKey es "field") || !truthy (getKey es "op")) = true) :
    Builds ((PredicateSpecification.mk? rt (getKey es "field") (getKey es "op")
      (getKey es "value")).map .predicate) (.part (.predicate es)) := by
  have hfault : (Part.predicate es).fault = _ := if_neg hkeys
  unfold PredicateSpecification.mk?
  rcases hop : getKey es "op" with _ | b | i | f | op | xs | fs | ⟨t, text⟩
  all_goals simp only [hop] at hfault ⊢
  case str =>
    have hopOf : opOf es = Op.parse op := by
      unfold opOf
      rw [hop]
    rcases hparse : Op.parse op with _ | o
    · refine Builds.of_error ?_
      rw [hfault, hopOf, hparse]
      rfl
    · refine ⟨?_, ?_⟩
      · rw [parts, List.findSome?_singleton, hfault, hopOf, hparse]
        rfl
      · intro s hs
        rw [← Except.ok.inj hs, toSpec, Part.toSpec, hopOf, hparse]
        rfl
  case list => exact Builds.of_error hfault
  case dict => exact Builds.of_error hfault
  -- anything else can be looked up, and is not there
  all_goals
    have hopOf : opOf es = none := by
      unfold opOf
      rw [hop]
    refine Builds.of_error ?_
    rw [hfault, hopOf]
    rfl

theorem builds_predicate (es : List (String × PyVal)) :
    Builds (if !truthy (getKey es "field") || !truthy (getKey es "op") then
        .error ⟨.InvalidRuleDefinitionError, "predicate requires field and op"⟩
      else (PredicateSpecification.mk? rt (getKey es "field") (getKey es "op")
        (getKey es "value")).map .predicate) (.part (.predicate es)) := by
  by_cases hkeys : (!truthy (getKey es "field") || !truthy (getKey es "op")) = true
  · rw [if_pos hkeys]
    refine ⟨?_, fun _ h => by cases h⟩
    rw [parts, List.findSome?_singleton, Part.fault, if_pos hkeys]
    rfl
  · rw [if_neg hkeys]
    exact builds_mk? hkeys

/-- A key is found by both readings, or by neither. -/
def KeyBuilds (node : List Specification → Specification) :
    Option (Except PyErr (List Specification)) → Option Conditions → Prop
  | some x, some c => Builds (x.map node) c
  | none, none => True
  | _, _ => False

mutual

/-- **Building** a specification: on the document; each item is built in turn. -/
theorem builds_fromJson : ∀ v, Builds (fromJson rt v) (read v)
  | .dict es => by
    have hand := builds_fromJsonKey "and" groups_all es
    have hor := builds_fromJsonKey "or" groups_any es
    unfold fromJson read
    rcases hx : fromJsonKey rt "and" es with _ | x <;> rcases hc : readKey "and" .all es with _ | c
    all_goals rw [hx, hc] at hand
    · rcases hy : fromJsonKey rt "or" es with _ | y <;> rcases hd : readKey "or" .any es with _ | d
      all_goals rw [hy, hd] at hor
      · exact builds_predicate es
      · exact hor.elim
      · exact hor.elim
      · exact hor
    · exact hand.elim
    · exact hand.elim
    · exact hand
  | .str s => builds_str s
  | .list xs => by
    unfold fromJson
    split <;> exact Builds.of_error rfl
  | .null => Builds.of_error rfl
  | .bool _ => Builds.of_error rfl
  | .int _ => Builds.of_error rfl
  | .float _ => Builds.of_error rfl
  | .foreign _ _ => Builds.of_error rfl

theorem builds_fromJsonKey (key : String) {group : List Conditions → Conditions}
    {node : List Specification → Specification} (hg : Groups group node) :
    ∀ es, KeyBuilds node (fromJsonKey rt key es) (readKey key group es)
  | [] => trivial
  | (k, v) :: es => by
    unfold fromJsonKey readKey
    by_cases hk : k = key
    · rw [if_pos hk, if_pos hk]
      exact builds_fromJsonIter hg v
    · rw [if_neg hk, if_neg hk]
      exact builds_fromJsonKey key hg es

theorem builds_fromJsonIter {group : List Conditions → Conditions}
    {node : List Specification → Specification} (hg : Groups group node) :
    ∀ v, Builds ((fromJsonIter rt v).map node) (readMembers group v)
  | .list xs => (builds_fromJsonList xs).group hg
  | .str _ => (buildsAll_strs _).group hg
  | .dict _ => (buildsAll_strs _).group hg
  | .null => Builds.of_error rfl
  | .bool _ => Builds.of_error rfl
  | .int _ => Builds.of_error rfl
  | .float _ => Builds.of_error rfl
  | .foreign _ _ => Builds.of_error rfl

theorem builds_fromJsonList : ∀ xs, BuildsAll (fromJsonList rt xs) (readList xs)
  | [] => BuildsAll.nil
  | x :: xs => by
    refine BuildsAll.cons (builds_fromJson x) (builds_fromJsonList xs) ?_ ?_
    · intro e he
      unfold fromJsonList
      rw [he]
    · intro s hs
      conv_lhs => unfold fromJsonList
      rw [hs]

end

end Conditions

/-! ## Asking a predicate -/

mutual

/-- The ordering operators are defined: on two numbers, on two strings, and
    on two lists if they are on the first items that differ. -/
def comparable : PyVal → PyVal → Bool
  | .str _, .str _ => true
  | .list xs, .list ys => comparableList xs ys
  | v, w => (asNumber v).isSome && (asNumber w).isSome

def comparableList : List PyVal → List PyVal → Bool
  | x :: xs, y :: ys => if pyEq x y then comparableList xs ys else comparable x y
  | _, _ => true

end

/-- `v in w` is defined. -/
def searchable (rt : Runtime) (v w : PyVal) : Bool :=
  match w with
  | .str _ =>
    match v with
    | .str _ => true
    | _ => false
  | .list _ => true
  | .dict _ =>
    match v with
    | .list _ => false
    | .dict _ => false
    | .foreign t text => rt.hashable (.foreign t text)
    | _ => true
  | _ => false

/-- What is wrong with the operands of an operator. -/
def operandFault (rt : Runtime) (op : Op) (left right : PyVal) : Option Fault :=
  match op, left with
  | .exists, _ => none
  | _, .null => none
  | .cmp _, _ => if comparable left right then none else some .escaped
  | .isIn, _ => if searchable rt left right then none else some .escaped
  | .notIn, _ => if searchable rt left right then none else some .escaped
  | .regex, _ =>
    if 128 < (pyStr rt right).length then some .reported
    else if (rt.reSearch (pyStr rt right) (pyStr rt left)).isOk then none
    else some .escaped
  | _, _ => none

/-- What is wrong with a predicate on the order: its field is not a string,
    or its operands do not suit its operator. -/
def PredicateSpecification.fault (rt : Runtime) (order : ExternalOrder)
    (p : PredicateSpecification) : Option Fault :=
  match extract rt order p.field with
  | .error _ => some .escaped
  | .ok left => operandFault rt p.op left p.value

mutual

/-- An ordering operator raises where it is not defined. -/
theorem faultOf_pyCompare (op : CmpOp) : ∀ v w,
    faultOf (pyCompare op v w) = if comparable v w then none else some .escaped
  | .list xs, .list ys => by
    unfold pyCompare comparable
    exact faultOf_pyCompareList op xs ys
  | .list _, .null => rfl
  | .list _, .bool _ => rfl
  | .list _, .int _ => rfl
  | .list _, .float _ => rfl
  | .list _, .str _ => rfl
  | .list _, .dict _ => rfl
  | .list _, .foreign _ _ => rfl
  | .null, w => by rcases w <;> rfl
  | .bool _, w => by rcases w <;> rfl
  | .int _, w => by rcases w <;> rfl
  | .float _, w => by rcases w <;> rfl
  | .str _, w => by rcases w <;> rfl
  | .dict _, w => by rcases w <;> rfl
  | .foreign _ _, w => by rcases w <;> rfl

theorem faultOf_pyCompareList (op : CmpOp) : ∀ xs ys,
    faultOf (pyCompareList op xs ys) = if comparableList xs ys then none else some .escaped
  | [], [] => rfl
  | [], _ :: _ => rfl
  | _ :: _, [] => rfl
  | x :: xs, y :: ys => by
    unfold pyCompareList comparableList
    by_cases h : pyEq x y = true
    · rw [if_pos h, if_pos h]
      exact faultOf_pyCompareList op xs ys
    · rw [if_neg h, if_neg h]
      exact faultOf_pyCompare op x y

end

theorem faultOf_pyIn (rt : Runtime) (v w : PyVal) :
    faultOf (pyIn rt v w) = if searchable rt v w then none else some .escaped := by
  rcases w with _ | b | i | f | s | ys | es | ⟨t, text⟩
  case list => rfl
  case str => rcases v with _ | _ | _ | _ | _ | _ | _ | _ <;> rfl
  case dict =>
    rcases v with _ | _ | _ | _ | _ | _ | _ | ⟨t, text⟩
    case foreign =>
      unfold pyIn searchable
      by_cases h : rt.hashable (.foreign t text) = true <;> simp [h, faultOf]
    all_goals rfl
  all_goals rfl

/-- The errors of `re.search` are its own. -/
def RegexErrors (rt : Runtime) : Prop :=
  ∀ pattern text e, rt.reSearch pattern text = .error e → e.cls ≠ .InvalidRuleDefinitionError

section

variable {rt : Runtime} {order : ExternalOrder}

theorem faultOf_reSearch (hre : RegexErrors rt) (pattern text : String) :
    faultOf (rt.reSearch pattern text) =
      if (rt.reSearch pattern text).isOk then none else some .escaped := by
  rcases h : rt.reSearch pattern text with e | b
  · show some (if e.cls = .InvalidRuleDefinitionError then Fault.reported else .escaped) = _
    rw [if_neg (hre pattern text e h)]
    rfl
  · rfl

theorem faultOf_test (hre : RegexErrors rt) (p : PredicateSpecification) (left : PyVal) :
    faultOf (p.test rt left) = operandFault rt p.op left p.value := by
  unfold PredicateSpecification.test operandFault
  rcases p.op with _ | _ | op | _ | _ | _ | _ | _ | _ | _
  case cmp =>
    rcases left
    case null => rfl
    all_goals exact faultOf_pyCompare op _ _
  case isIn =>
    rcases left
    case null => rfl
    all_goals exact faultOf_pyIn rt _ _
  case notIn =>
    rcases left
    case null => rfl
    all_goals exact (faultOf_map _ _).trans (faultOf_pyIn rt _ _)
  case regex =>
    rcases left
    case null => rfl
    all_goals
      by_cases hlong : 128 < (pyStr rt p.value).length
      · simp only [if_pos hlong]
        rfl
      · simp only [if_neg hlong]
        exact faultOf_reSearch hre _ _
  -- the other operators are defined on whatever they meet
  all_goals rcases left <;> rfl

theorem faultOf_predicate (hre : RegexErrors rt) (p : PredicateSpecification) :
    faultOf (p.isSatisfiedBy rt order) = p.fault rt order := by
  unfold PredicateSpecification.isSatisfiedBy PredicateSpecification.fault
  rcases h : extract rt order p.field with e | left
  · -- the field is not a string
    unfold extract at h
    split at h
    · cases h
    · rw [← Except.error.inj h]
      rfl
  · exact faultOf_test hre p left

end

/-! ## Evaluating the specification -/

namespace Specification

variable (rt : Runtime) (order : ExternalOrder)

mutual

/-- The specification as a formula: a predicate that raises does not hold. -/
def holds : Specification → Bool
  | .predicate p => p.isSatisfiedBy rt order = .ok true
  | .and specs => allHold specs
  | .or specs => anyHolds specs

def allHold : List Specification → Bool
  | [] => true
  | s :: specs => holds s && allHold specs

def anyHolds : List Specification → Bool
  | [] => false
  | s :: specs => holds s || anyHolds specs

end

mutual

/-- The predicates that evaluation asks, in turn: an `and` asks up to the
    first item that does not hold, an `or` up to the first that does. -/
def asked : Specification → List PredicateSpecification
  | .predicate p => [p]
  | .and specs => askedAll specs
  | .or specs => askedAny specs

def askedAll : List Specification → List PredicateSpecification
  | [] => []
  | s :: specs => asked s ++ if holds rt order s then askedAll specs else []

def askedAny : List Specification → List PredicateSpecification
  | [] => []
  | s :: specs => asked s ++ if holds rt order s then [] else askedAny specs

end

variable {rt : Runtime} {order : ExternalOrder}

/-- A computation comes to `b`, or ends with the first fault of the
    predicates it asks. -/
structure Evaluates (rt : Runtime) (order : ExternalOrder) (x : Except PyErr Bool) (b : Bool)
    (ps : List PredicateSpecification) : Prop where
  fault : faultOf x = ps.findSome? (·.fault rt order)
  value : ∀ b', x = .ok b' → b' = b

/-- An error, or no fault and a value. -/
theorem Evaluates.cases {x : Except PyErr Bool} {b : Bool} {ps : List PredicateSpecification}
    (h : Evaluates rt order x b ps) :
    (∃ e, x = .error e ∧ ∀ qs, (ps ++ qs).findSome? (·.fault rt order) = faultOf x) ∨
    (x = .ok b ∧ ∀ qs, (ps ++ qs).findSome? (·.fault rt order) =
      qs.findSome? (·.fault rt order)) := by
  have hfault := h.fault
  rcases x with e | b'
  · refine Or.inl ⟨e, rfl, ?_⟩
    intro qs
    rw [List.findSome?_append, ← hfault]
    rfl
  · have hb := h.value b' rfl
    subst hb
    refine Or.inr ⟨rfl, ?_⟩
    intro qs
    rw [List.findSome?_append, ← hfault]
    rfl

mutual

/-- **Evaluating** a specification: on the specification; each item is asked in turn. -/
theorem evaluates (hre : RegexErrors rt) : ∀ s : Specification,
    Evaluates rt order (s.isSatisfiedBy rt order) (holds rt order s) (asked rt order s)
  | .predicate p => by
    refine ⟨?_, ?_⟩
    · rw [asked, List.findSome?_singleton]
      exact faultOf_predicate hre p
    · intro b hb
      unfold Specification.isSatisfiedBy at hb
      rw [holds, hb]
      rcases b <;> rfl
  | .and specs => evaluates_all hre specs
  | .or specs => evaluates_any hre specs

theorem evaluates_all (hre : RegexErrors rt) : ∀ specs : List Specification,
    Evaluates rt order (allSatisfied rt order specs) (allHold rt order specs)
      (askedAll rt order specs)
  | [] => ⟨rfl, fun _ h => (Except.ok.inj h).symm⟩
  | s :: specs => by
    unfold allSatisfied allHold askedAll
    rcases (evaluates hre s).cases with ⟨e, hx, hps⟩ | ⟨hx, hps⟩
    · rw [hx] at hps ⊢
      exact ⟨(hps _).symm, fun _ h => by cases h⟩
    · have hrest := evaluates_all hre specs
      rw [hx]
      rcases hb : holds rt order s with _ | _
      · exact ⟨(hps []).symm, fun _ h => (Except.ok.inj h).symm⟩
      · exact ⟨hrest.fault.trans (hps _).symm, hrest.value⟩

theorem evaluates_any (hre : RegexErrors rt) : ∀ specs : List Specification,
    Evaluates rt order (anySatisfied rt order specs) (anyHolds rt order specs)
      (askedAny rt order specs)
  | [] => ⟨rfl, fun _ h => (Except.ok.inj h).symm⟩
  | s :: specs => by
    unfold anySatisfied anyHolds askedAny
    rcases (evaluates hre s).cases with ⟨e, hx, hps⟩ | ⟨hx, hps⟩
    · rw [hx] at hps ⊢
      exact ⟨(hps _).symm, fun _ h => by cases h⟩
    · have hrest := evaluates_any hre specs
      rw [hx]
      rcases hb : holds rt order s with _ | _
      · exact ⟨hrest.fault.trans (hps _).symm, hrest.value⟩
      · exact ⟨(hps []).symm, fun _ h => (Except.ok.inj h).symm⟩

end

end Specification

/-! ## What escapes -/

/-- Building and evaluating the rule's conditions gives a boolean, or
    raises `InvalidRuleDefinitionError`. -/
def ReportsBadDefinition (rt : Runtime) (order : ExternalOrder) (rule : EnrichmentRule) : Prop :=
  ∀ e, rule.matches rt order = .error e → e.cls = .InvalidRuleDefinitionError

/-- The rule's conditions as a tree. -/
def EnrichmentRule.conditions (rule : EnrichmentRule) : Conditions :=
  .read rule.conditionsJson.toVal

/-- **Bad definitions** are reported exactly if the first faulty part of
    the document, if it has one, is a predicate that is refused, and, where
    it has none, the first faulty predicate that the order makes the
    evaluation ask is a pattern that is refused. -/
theorem reportsBadDefinition_iff (rt : Runtime) (hre : RegexErrors rt) (order : ExternalOrder)
    (rule : EnrichmentRule) :
    ReportsBadDefinition rt order rule ↔
      rule.conditions.parts.findSome? Part.fault ≠ some .escaped ∧
      (rule.conditions.parts.findSome? Part.fault = none →
        (rule.conditions.toSpec.asked rt order).findSome? (·.fault rt order) ≠ some .escaped) := by
  have hbuild : Conditions.Builds (fromJson rt rule.conditionsJson.toVal) rule.conditions :=
    Conditions.builds_fromJson _
  unfold ReportsBadDefinition
  rw [← faultOf_ne_escaped_iff]
  unfold EnrichmentRule.matches
  rcases hx : fromJson rt rule.conditionsJson.toVal with e | s
  · -- the building raises
    rw [hx] at hbuild
    rw [← hbuild.fault]
    show faultOf (.error e : Except PyErr Bool) ≠ _ ↔ faultOf (.error e : Except PyErr Bool) ≠ _ ∧
      (faultOf (.error e : Except PyErr Bool) = none → _)
    simp [faultOf]
  · rw [hx] at hbuild
    rw [← hbuild.fault, ← hbuild.spec s rfl, ← (Specification.evaluates hre s).fault]
    simp

/-- `{"and": [{"field": "priority", "op": "gt", "value": …}]}` -/
def urgentRule (value : PyVal) (h : value.wf = true) : EnrichmentRule :=
  { Sample.rule "R1" "ES01" with
    conditionsJson := ⟨[("and", .list [.dict [("field", .str "priority"), ("op", .str "gt"),
      ("value", value)]])], by simp [PyVal.wf, PyVal.wfList, PyVal.wfFields, h]⟩ }

theorem reportsBadDefinition_iff_urgent :
    ReportsBadDefinition Sample.runtime (Sample.order "ORD-1" Sample.nine)
      (urgentRule (.int 5) rfl) :=
  (reportsBadDefinition_iff Sample.runtime (fun _ _ _ h => by cases h)
    (Sample.order "ORD-1" Sample.nine) (urgentRule (.int 5) rfl)).mpr ⟨by decide, fun _ => by decide⟩

/-- A priority is not compared with a text. -/
theorem text_operand_escapes :
    (urgentRule (.str "high") rfl).matches Sample.runtime (Sample.order "ORD-1" Sample.nine) =
        .error ⟨.TypeError, "'>' not supported between instances of 'int' and 'str'"⟩ ∧
      ¬ ReportsBadDefinition Sample.runtime (Sample.order "ORD-1" Sample.nine)
        (urgentRule (.str "high") rfl) := by
  have hraises : (urgentRule (.str "high") rfl).matches Sample.runtime
      (Sample.order "ORD-1" Sample.nine) =
        .error ⟨.TypeError, "'>' not supported between instances of 'int' and 'str'"⟩ := rfl
  refine ⟨hraises, ?_⟩
  intro h
  have hcls := h _ hraises
  cases hcls

end RulesEnrichment
