import RulesEnrichment.Model.Entities
import Mathlib.Data.List.Infix

/-! # Rule conditions

    `domain/specifications` and `RuleSpecificationFactory`: how the JSON
    of a rule's conditions becomes a specification, and when an order
    satisfies it. Both can raise, and every way they do is modelled.

    The order's attributes are read by reflection (`_extract`), and the
    operators are Python's own on whatever two values meet: `==` across
    the numeric types, ordering that raises on unlike types, `in` on
    strings, lists and dictionaries. -/

namespace RulesEnrichment

open Python

/-! ## The Python runtime -/

/-- The parts of the Python runtime the rule engine calls and that are
    taken as given here. -/
structure Runtime where
  /-- `repr` of a string -/
  reprStr : String → String
  /-- `str.lower` -/
  lower : String → String
  /-- `re.search(pattern, text) is not None`, or `re.error` -/
  reSearch : String → String → Except PyErr Bool
  /-- `getattr(value, name, None)` for the attributes that an object of a
      built-in type, or a dataclass instance beyond its own members, has
      by nature (`str.upper`, `int.real`, `__class__`). -/
  getattr : PyVal → String → Option PyVal
  /-- Whether `hash` accepts an object of a type that JSON has no form for. -/
  hashable : PyVal → Bool
  /-- `repr(order)` -/
  reprOrder : ExternalOrder → String
  /-- `hashlib.sha256(text.encode("utf-8")).hexdigest()` -/
  sha256 : String → String

/-! ## Operators of Python -/

def typeName : PyVal → String
  | .null => "NoneType"
  | .bool _ => "bool"
  | .int _ => "int"
  | .float _ => "float"
  | .str _ => "str"
  | .list _ => "list"
  | .dict _ => "dict"
  -- the module is part of the name
  | .foreign t _ => if t = "datetime" then "datetime.datetime" else t

/-- `bool(v)` -/
def truthy : PyVal → Bool
  | .null => false
  | .bool b => b
  | .int i => i ≠ 0
  | .float f => f.num ≠ 0
  | .str s => s ≠ ""
  | .list xs => !xs.isEmpty
  | .dict es => !es.isEmpty
  | .foreign _ _ => true

/-- A number of the tower `bool`, `int`, `float`, as a fraction. -/
def asNumber : PyVal → Option (Int × Nat)
  | .bool b => some (if b then 1 else 0, 1)
  | .int i => some (i, 1)
  | .float f => some (f.num, f.den)
  | _ => none

/-- How two fractions with positive denominators compare. -/
def compareNumbers (a b : Int × Nat) : Ordering := compare (a.1 * b.2) (b.1 * a.2)

mutual

/-- `v == w` -/
def pyEq : PyVal → PyVal → Bool
  | .null, .null => true
  | .str s, .str t => s == t
  | .list xs, .list ys => pyEqList xs ys
  | .dict es, .dict fs => es.length == fs.length && pyEqFields es fs
  | .foreign t a, .foreign u b => t == u && a == b
  | v, w =>
    -- `True == 1 == 1.0`, and values of unlike types are unequal, not an error
    match asNumber v, asNumber w with
    | some a, some b => compareNumbers a b == .eq
    | _, _ => false

def pyEqList : List PyVal → List PyVal → Bool
  | [], [] => true
  | x :: xs, y :: ys => pyEq x y && pyEqList xs ys
  | _, _ => false

def pyEqFields : List (String × PyVal) → List (String × PyVal) → Bool
  | [], _ => true
  | (k, v) :: es, fs =>
    (match fs.lookup k with
      | some v' => pyEq v v'
      | none => false) && pyEqFields es fs

end

/-- The ordering operators. -/
inductive CmpOp where
  | gt
  | gte
  | lt
  | lte
  deriving DecidableEq

def CmpOp.symbol : CmpOp → String
  | .gt => ">"
  | .gte => ">="
  | .lt => "<"
  | .lte => "<="

def CmpOp.holds : CmpOp → Ordering → Bool
  | .gt, o => o == .gt
  | .gte, o => o != .lt
  | .lt, o => o == .lt
  | .lte, o => o != .gt

mutual

/-- `v > w` and its kin: numbers, strings and lists compare with their
    like, every other pair raises. -/
def pyCompare (op : CmpOp) : PyVal → PyVal → Except PyErr Bool
  | .str s, .str t => .ok (op.holds (compare s t))
  | .list xs, .list ys => pyCompareList op xs ys
  | v, w =>
    match asNumber v, asNumber w with
    | some a, some b => .ok (op.holds (compareNumbers a b))
    | _, _ => .error ⟨.TypeError, "'" ++ op.symbol ++ "' not supported between instances of '" ++
        typeName v ++ "' and '" ++ typeName w ++ "'"⟩

/-- The first pair of unequal elements decides, then the length. -/
def pyCompareList (op : CmpOp) : List PyVal → List PyVal → Except PyErr Bool
  | [], [] => .ok (op.holds .eq)
  | [], _ :: _ => .ok (op.holds .lt)
  | _ :: _, [] => .ok (op.holds .gt)
  | x :: xs, y :: ys => if pyEq x y then pyCompareList op xs ys else pyCompare op x y

end

/-- `v in w` -/
def pyIn (rt : Runtime) (v w : PyVal) : Except PyErr Bool :=
  match w with
  | .str t =>
    match v with
    | .str s => .ok (decide (s.toList <:+: t.toList))
    | _ => .error ⟨.TypeError, "'in <string>' requires string as left operand, not " ++ typeName v⟩
  | .list ys => .ok (ys.any (pyEq v))
  | .dict es =>
    -- looking up a key hashes the operand first
    match v with
    | .list _ => .error ⟨.TypeError, "unhashable type: 'list'"⟩
    | .dict _ => .error ⟨.TypeError, "unhashable type: 'dict'"⟩
    | .foreign t text =>
      -- no key is such an object
      if rt.hashable (.foreign t text) then .ok false
      else .error ⟨.TypeError, "unhashable type: '" ++ t ++ "'"⟩
    | _ => .ok (es.any fun e => pyEq v (.str e.1))
  | _ => .error ⟨.TypeError, "argument of type '" ++ typeName w ++ "' is not iterable"⟩

mutual

/-- `str(v)`, for integers of at most 4300 digits. -/
def pyStr (rt : Runtime) : PyVal → String
  | .null => "None"
  | .bool b => if b then "True" else "False"
  | .int i => toString i
  | .float f => f.text
  | .str s => s
  | .list xs => "[" ++ PyVal.joinWith ", " (pyReprList rt xs) ++ "]"
  | .dict es => "\x7b" ++ PyVal.joinWith ", " (pyReprFields rt es) ++ "\x7d"
  | .foreign _ text => text

/-- `repr` of the items of a list. -/
def pyReprList (rt : Runtime) : List PyVal → List String
  | [] => []
  | x :: xs =>
    (match x with
      | .str s => rt.reprStr s
      | v => pyStr rt v) :: pyReprList rt xs

/-- `repr` of the entries of a dictionary. -/
def pyReprFields (rt : Runtime) : List (String × PyVal) → List String
  | [] => []
  | (k, v) :: es =>
    (rt.reprStr k ++ ": " ++
      (match v with
        | .str s => rt.reprStr s
        | w => pyStr rt w)) :: pyReprFields rt es

end

/-- `s.split(".")` -/
def splitDots : List Char → List (List Char)
  | [] => [[]]
  | c :: cs =>
    if c = '.' then [] :: splitDots cs
    else
      match splitDots cs with
      | [] => [[c]]
      | t :: ts => (c :: t) :: ts

/-! ## Reading an order by field path -/

/-- What the loop of `_extract` has reached. -/
inductive Reached where
  | order (o : ExternalOrder)
  | address (a : Address)
  | value (v : PyVal)

def reprNumber : PyNumber → String
  | .int i => toString i
  | .float f => f.text

/-- `repr` of an address, which is also its `str`. -/
def Address.repr (rt : Runtime) (a : Address) : String :=
  "Address(name=" ++ rt.reprStr a.name ++ ", address_line_1=" ++ rt.reprStr a.addressLine1 ++
    ", city=" ++ rt.reprStr a.city ++ ", postal_code=" ++ rt.reprStr a.postalCode ++
    ", country_code=" ++ rt.reprStr a.countryCode ++ ")"

/-- `repr` of an order line. -/
def ExternalOrderLine.repr (rt : Runtime) (l : ExternalOrderLine) : String :=
  "ExternalOrderLine(line_number=" ++ toString l.lineNumber ++ ", sku=" ++ rt.reprStr l.sku ++
    ", description=" ++ rt.reprStr l.description ++ ", quantity=" ++ toString l.quantity ++
    ", uom=" ++ rt.reprStr l.uom ++ ", unit_weight_kg=" ++ reprNumber l.unitWeightKg ++
    ", unit_volume_m3=" ++ reprNumber l.unitVolumeM3 ++ ", hazmat_flag=" ++
    (if l.hazmatFlag then "True" else "False") ++ ", temperature_class=" ++
    rt.reprStr l.temperatureClass ++ ")"

/-- The reached object as an operand. -/
def Reached.toVal (rt : Runtime) : Reached → PyVal
  | .order o => .foreign "ExternalOrder" (rt.reprOrder o)
  | .address a => .foreign "Address" (a.repr rt)
  | .value v => v

/-- The members of an order, its two methods among them. -/
def ExternalOrder.member (rt : Runtime) (o : ExternalOrder) (token : String) : Option Reached :=
  if token = "order_id" then some (.value (.str o.orderId))
  else if token = "client_code" then some (.value (.str o.clientCode))
  else if token = "facility_code" then some (.value (.str o.facilityCode))
  else if token = "zone_code" then some (.value (optionalStr o.zoneCode))
  else if token = "order_type" then some (.value (.str o.orderType))
  else if token = "priority" then some (.value (.int o.priority))
  else if token = "status" then some (.value (.str o.status))
  else if token = "source_address" then some (.address o.sourceAddress)
  else if token = "destination_address" then some (.address o.destinationAddress)
  else if token = "total_weight_kg" then some (.value o.totalWeightKg.toVal)
  else if token = "total_volume_m3" then some (.value o.totalVolumeM3.toVal)
  else if token = "lines" then
    some (.value (.list (o.lines.map fun l => .foreign "ExternalOrderLine" (l.repr rt))))
  else if token = "created_at" then some (.value o.createdAt.toVal)
  else if token = "updated_at" then some (.value o.updatedAt.toVal)
  else if token = "has_hazmat" ∨ token = "temperature_classes" then
    some (.value (.foreign "method"
      ("<bound method ExternalOrder." ++ token ++ " of " ++ rt.reprOrder o ++ ">")))
  else none

def Address.member (a : Address) (token : String) : Option Reached :=
  if token = "name" then some (.value (.str a.name))
  else if token = "address_line_1" then some (.value (.str a.addressLine1))
  else if token = "city" then some (.value (.str a.city))
  else if token = "postal_code" then some (.value (.str a.postalCode))
  else if token = "country_code" then some (.value (.str a.countryCode))
  else none

/-- `current.get(token)` of a dictionary, `getattr(current, token, None)`
    of anything else. -/
def Reached.get (rt : Runtime) (token : String) : Reached → Reached
  | .value (.dict es) => .value ((es.lookup token).getD .null)
  | .order o =>
    (o.member rt token).getD
      (.value ((rt.getattr (Reached.toVal rt (.order o)) token).getD .null))
  | .address a =>
    (a.member token).getD
      (.value ((rt.getattr (Reached.toVal rt (.address a)) token).getD .null))
  | .value v => .value ((rt.getattr v token).getD .null)

/-- The loop over the tokens of the path; `None` ends it. -/
def extractTokens (rt : Runtime) : Reached → List String → Reached
  | current, [] => current
  | current, token :: tokens =>
    match current.get rt token with
    | .value .null => .value .null
    | next => extractTokens rt next tokens

/-- `_extract(order, field_path)`; only a string can be split. -/
def extract (rt : Runtime) (order : ExternalOrder) (field : PyVal) : Except PyErr PyVal :=
  match field with
  | .str path =>
    .ok ((extractTokens rt (.order order) ((splitDots path.toList).map String.ofList)).toVal rt)
  | v => .error ⟨.AttributeError, "'" ++ typeName v ++ "' object has no attribute 'split'"⟩

/-! ## Predicates -/

/-- `_ALLOWED_OPS` -/
inductive Op where
  | eq
  | neq
  | cmp (op : CmpOp)
  | contains
  | isIn
  | notIn
  | startsWith
  | endsWith
  | exists
  | regex
  deriving DecidableEq

def Op.parse (s : String) : Option Op :=
  if s = "eq" then some .eq
  else if s = "neq" then some .neq
  else if s = "gt" then some (.cmp .gt)
  else if s = "gte" then some (.cmp .gte)
  else if s = "lt" then some (.cmp .lt)
  else if s = "lte" then some (.cmp .lte)
  else if s = "contains" then some .contains
  else if s = "in" then some .isIn
  else if s = "not_in" then some .notIn
  else if s = "starts_with" then some .startsWith
  else if s = "ends_with" then some .endsWith
  else if s = "exists" then some .exists
  else if s = "regex" then some .regex
  else none

/-- `PredicateSpecification`; `op` has passed `__post_init__`. -/
structure PredicateSpecification where
  field : PyVal
  op : Op
  value : PyVal

/-- `__post_init__`: membership in a set, so an unhashable operator
    raises before it is found to be unsupported. -/
def PredicateSpecification.mk? (rt : Runtime) (field op value : PyVal) :
    Except PyErr PredicateSpecification :=
  match op with
  | .list _ => .error ⟨.TypeError, "unhashable type: 'list'"⟩
  | .dict _ => .error ⟨.TypeError, "unhashable type: 'dict'"⟩
  | .str s =>
    match Op.parse s with
    | some o => .ok ⟨field, o, value⟩
    | none => .error ⟨.InvalidRuleDefinitionError, "unsupported operator: " ++ s⟩
  | v => .error ⟨.InvalidRuleDefinitionError, "unsupported operator: " ++ pyStr rt v⟩

/-- The comparison of the extracted value with the rule's value. -/
def PredicateSpecification.test (rt : Runtime) (p : PredicateSpecification) (left : PyVal) :
    Except PyErr Bool :=
  let right := p.value
  match p.op, left with
  | .exists, .null => .ok false
  | .exists, _ => .ok true
  -- an absent value fails every other operator, `neq` and `not_in` too
  | _, .null => .ok false
  | .eq, _ => .ok (pyEq left right)
  | .neq, _ => .ok (!pyEq left right)
  | .cmp op, _ => pyCompare op left right
  | .contains, _ =>
    .ok (decide ((rt.lower (pyStr rt right)).toList <:+: (rt.lower (pyStr rt left)).toList))
  | .isIn, _ => pyIn rt left right
  | .notIn, _ => (pyIn rt left right).map (!·)
  | .startsWith, _ => .ok ((pyStr rt right).toList.isPrefixOf (pyStr rt left).toList)
  | .endsWith, _ => .ok ((pyStr rt right).toList.isSuffixOf (pyStr rt left).toList)
  | .regex, _ =>
    let pattern := pyStr rt right
    -- the length is checked only when the predicate is evaluated
    if 128 < pattern.length then .error ⟨.InvalidRuleDefinitionError, "regex too long"⟩
    else rt.reSearch pattern (pyStr rt left)

def PredicateSpecification.isSatisfiedBy (rt : Runtime) (p : PredicateSpecification)
    (order : ExternalOrder) : Except PyErr Bool :=
  match extract rt order p.field with
  | .error e => .error e
  | .ok left => p.test rt left

/-! ## Composite specifications -/

inductive Specification where
  | predicate (p : PredicateSpecification)
  | and (specs : List Specification)
  | or (specs : List Specification)

mutual

def Specification.isSatisfiedBy (rt : Runtime) (order : ExternalOrder) :
    Specification → Except PyErr Bool
  | .predicate p => p.isSatisfiedBy rt order
  | .and specs => allSatisfied rt order specs
  | .or specs => anySatisfied rt order specs

/-- `all(...)` over a generator: stops at the first `False`. -/
def allSatisfied (rt : Runtime) (order : ExternalOrder) : List Specification → Except PyErr Bool
  | [] => .ok true
  | s :: specs =>
    match s.isSatisfiedBy rt order with
    | .error e => .error e
    | .ok false => .ok false
    | .ok true => allSatisfied rt order specs

/-- `any(...)` over a generator: stops at the first `True`. -/
def anySatisfied (rt : Runtime) (order : ExternalOrder) : List Specification → Except PyErr Bool
  | [] => .ok false
  | s :: specs =>
    match s.isSatisfiedBy rt order with
    | .error e => .error e
    | .ok true => .ok true
    | .ok false => anySatisfied rt order specs

end

/-! ## `RuleSpecificationFactory.from_json` -/

/-- `conditions.get(key)` of a dictionary. -/
def getKey (es : List (String × PyVal)) (key : String) : PyVal := (es.lookup key).getD .null

/-- `from_json` of a string: `"and" in conditions` is a substring test,
    after which the string is indexed by a string; otherwise it has no
    `get`. -/
def fromJsonStr (s : String) : Except PyErr Specification :=
  if "and".toList <:+: s.toList ∨ "or".toList <:+: s.toList then
    .error ⟨.TypeError, "string indices must be integers, not 'str'"⟩
  else .error ⟨.AttributeError, "'str' object has no attribute 'get'"⟩

/-- The characters of a string, or the keys of a dictionary, as items. -/
def fromJsonStrs : List String → Except PyErr (List Specification)
  | [] => .ok []
  | s :: ss =>
    match fromJsonStr s with
    | .error e => .error e
    | .ok spec => (fromJsonStrs ss).map (spec :: ·)

mutual

def fromJson (rt : Runtime) : PyVal → Except PyErr Specification
  | .dict es =>
    -- "and" goes before "or", and either before a predicate beside it
    match fromJsonKey rt "and" es with
    | some specs => specs.map .and
    | none =>
      match fromJsonKey rt "or" es with
      | some specs => specs.map .or
      | none =>
        let field := getKey es "field"
        let op := getKey es "op"
        -- absent and empty are refused alike
        if !truthy field || !truthy op then
          .error ⟨.InvalidRuleDefinitionError, "predicate requires field and op"⟩
        else (PredicateSpecification.mk? rt field op (getKey es "value")).map .predicate
  | .str s => fromJsonStr s
  | .list xs =>
    -- `in` looks for the item; then the list is indexed by a string, or asked for `get`
    if xs.any (pyEq (.str "and")) || xs.any (pyEq (.str "or")) then
      .error ⟨.TypeError, "list indices must be integers or slices, not str"⟩
    else .error ⟨.AttributeError, "'list' object has no attribute 'get'"⟩
  | v => .error ⟨.TypeError, "argument of type '" ++ typeName v ++ "' is not iterable"⟩

/-- `[from_json(item) for item in conditions[key]]`, if the key is there. -/
def fromJsonKey (rt : Runtime) (key : String) :
    List (String × PyVal) → Option (Except PyErr (List Specification))
  | [] => none
  | (k, v) :: es => if k = key then some (fromJsonIter rt v) else fromJsonKey rt key es

/-- The items of whatever value stands under the key. -/
def fromJsonIter (rt : Runtime) : PyVal → Except PyErr (List Specification)
  | .list xs => fromJsonList rt xs
  | .str s => fromJsonStrs (s.toList.map String.singleton)
  | .dict es => fromJsonStrs (es.map Prod.fst)
  | v => .error ⟨.TypeError, "'" ++ typeName v ++ "' object is not iterable"⟩

def fromJsonList (rt : Runtime) : List PyVal → Except PyErr (List Specification)
  | [] => .ok []
  | x :: xs =>
    match fromJson rt x with
    | .error e => .error e
    | .ok spec => (fromJsonList rt xs).map (spec :: ·)

end

end RulesEnrichment
