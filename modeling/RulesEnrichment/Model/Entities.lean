import RulesEnrichment.Model.Basic
import RulesEnrichment.Lib.JsonObject

/-! # Domain entities

    The dataclasses of `domain/entities`, `domain/value_objects` and
    `domain/enums`, and the payload DTO of `application/dto`. Their strings
    are texts of characters. A Python string may hold surrogates too; what
    the hash service makes of those is in `HashContent`. -/

namespace RulesEnrichment

open Python

/-! ## Orders -/

structure Address where
  name : String
  addressLine1 : String
  city : String
  postalCode : String
  countryCode : String
  deriving DecidableEq

/-- A member annotated `float`: decoded JSON gives an integer or a float. -/
inductive PyNumber where
  | int (i : Int)
  | float (f : PyFloat)
  deriving DecidableEq

def PyNumber.toVal : PyNumber → PyVal
  | .int i => .int i
  | .float f => .float f

structure ExternalOrderLine where
  lineNumber : Int
  sku : String
  description : String
  quantity : Int
  uom : String
  unitWeightKg : PyNumber
  unitVolumeM3 : PyNumber
  hazmatFlag : Bool
  temperatureClass : String
  deriving DecidableEq

structure ExternalOrder where
  orderId : String
  clientCode : String
  facilityCode : String
  zoneCode : Option String
  orderType : String
  priority : Int
  status : String
  sourceAddress : Address
  destinationAddress : Address
  totalWeightKg : PyNumber
  totalVolumeM3 : PyNumber
  lines : List ExternalOrderLine
  createdAt : DateTime
  updatedAt : DateTime
  deriving DecidableEq

def optionalStr : Option String → PyVal
  | none => .null
  | some s => .str s

/-- A `datetime` as a Python object, printed by `str`. -/
def DateTime.toVal (d : DateTime) : PyVal := .foreign "datetime" (d.format " ")

/-! ### `dataclasses.asdict`

    Nested dataclasses become dictionaries; everything else is copied as
    it is, the timestamps too. -/

def Address.asdict (a : Address) : PyVal :=
  .dict [("name", .str a.name), ("address_line_1", .str a.addressLine1), ("city", .str a.city),
    ("postal_code", .str a.postalCode), ("country_code", .str a.countryCode)]

def ExternalOrderLine.asdict (l : ExternalOrderLine) : PyVal :=
  .dict [("line_number", .int l.lineNumber), ("sku", .str l.sku),
    ("description", .str l.description), ("quantity", .int l.quantity), ("uom", .str l.uom),
    ("unit_weight_kg", l.unitWeightKg.toVal), ("unit_volume_m3", l.unitVolumeM3.toVal),
    ("hazmat_flag", .bool l.hazmatFlag), ("temperature_class", .str l.temperatureClass)]

def ExternalOrder.asdict (o : ExternalOrder) : PyVal :=
  .dict [("order_id", .str o.orderId), ("client_code", .str o.clientCode),
    ("facility_code", .str o.facilityCode), ("zone_code", optionalStr o.zoneCode),
    ("order_type", .str o.orderType), ("priority", .int o.priority), ("status", .str o.status),
    ("source_address", o.sourceAddress.asdict),
    ("destination_address", o.destinationAddress.asdict),
    ("total_weight_kg", o.totalWeightKg.toVal), ("total_volume_m3", o.totalVolumeM3.toVal),
    ("lines", .list (o.lines.map ExternalOrderLine.asdict)),
    ("created_at", o.createdAt.toVal), ("updated_at", o.updatedAt.toVal)]

/-! ## Rules and decisions -/

structure EnrichmentRule where
  ruleId : String
  facilityCode : Option String
  clientCode : Option String
  zoneCode : Option String
  ruleType : String
  priority : Int
  isActive : Bool
  conditionsJson : JsonObject
  enrichmentJson : JsonObject
  validFrom : Option DateTime
  validTo : Option DateTime

/-- An entry of `applied_rule_details`. -/
structure AppliedRule where
  ruleId : String
  ruleType : String
  description : String
  deriving DecidableEq

structure EnrichmentDecision where
  orderId : String
  matchedRules : List String
  enrichedFields : JsonObject
  decisionTimestamp : DateTime
  explanation : String
  appliedRuleDetails : List AppliedRule

def EnrichmentDecision.hasMatches (d : EnrichmentDecision) : Bool := 0 < d.matchedRules.length

/-- `EnrichmentPayloadDTO` -/
structure EnrichmentPayload where
  correlationId : String
  sourceSystem : String
  enrichmentVersion : Nat
  appliedRules : List AppliedRule
  enrichedFields : JsonObject

/-! ## Processing records -/

inductive ProcessingStatus where
  | PENDING
  | SUCCESS
  | FAILED
  | DEAD_LETTER
  deriving DecidableEq, Repr

inductive OutboxStatus where
  | PENDING
  | PUBLISHED
  | FAILED
  deriving DecidableEq, Repr

/-- The event types the use cases write. -/
inductive EventType where
  | OrderEnrichmentSucceeded
  | OrderEnrichmentFailed
  | OrderMovedToDeadLetter
  deriving DecidableEq, Repr

structure ProcessingAttempt where
  orderId : String
  correlationId : String
  attemptNumber : Nat
  status : ProcessingStatus
  startedAt : DateTime
  finishedAt : Option DateTime
  errorMessage : Option String
  deriving DecidableEq

structure ProcessedOrder where
  orderId : String
  enrichmentHash : String
  processedAt : DateTime
  correlationId : String
  deriving DecidableEq

structure OutboxMessage where
  messageId : String
  aggregateType : String
  aggregateId : String
  eventType : EventType
  payloadJson : PyVal
  status : OutboxStatus
  createdAt : DateTime
  publishedAt : Option DateTime

structure DeadLetterItem where
  orderId : String
  correlationId : String
  reason : String
  payloadJson : PyVal
  createdAt : DateTime

end RulesEnrichment
