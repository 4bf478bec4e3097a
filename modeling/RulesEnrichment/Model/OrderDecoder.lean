import RulesEnrichment.Lib.Fallible
import RulesEnrichment.Model.IsoFormat
import RulesEnrichment.Model.Facade

/-! # Decoding orders

    `ManhattanSimulatorHttpClient._to_order` and what it is called from.

    A document is a JSON object whose members, where they are there, have
    the types of the schema; a member that may be missing is an `Option`.
    `zone_code` may also be `null`, which the decoder does not tell from
    its absence. -/

namespace RulesEnrichment

open Python Fallible

/-! ## Documents -/

def addressMembers : List String :=
  ["name", "address_line_1", "city", "postal_code", "country_code"]

def lineMembers : List String :=
  ["line_number", "sku", "description", "quantity", "uom", "unit_weight_kg", "unit_volume_m3",
    "hazmat_flag", "temperature_class"]

def orderMembers : List String :=
  ["order_id", "client_code", "facility_code", "zone_code", "order_type", "priority", "status",
    "source_address", "destination_address", "total_weight_kg", "total_volume_m3", "lines",
    "created_at", "updated_at"]

/-- The members of a JSON object beyond those of the schema. -/
structure Extra (members : List String) where
  entries : List (String × PyVal)
  outside : ∀ p ∈ entries, p.1 ∉ members

def Extra.none (members : List String) : Extra members := ⟨[], fun _ h => absurd h List.not_mem_nil⟩

structure AddressDocument where
  name : Option String
  addressLine1 : Option String
  city : Option String
  postalCode : Option String
  countryCode : Option String
  extra : Extra addressMembers := .none addressMembers

structure LineDocument where
  lineNumber : Option Int
  sku : Option String
  description : Option String
  quantity : Option Int
  uom : Option String
  unitWeightKg : Option PyNumber
  unitVolumeM3 : Option PyNumber
  hazmatFlag : Option Bool
  temperatureClass : Option String
  extra : Extra lineMembers := .none lineMembers

structure OrderDocument where
  orderId : Option String
  clientCode : Option String
  facilityCode : Option String
  zoneCode : Option String
  orderType : Option String
  priority : Option Int
  status : Option String
  sourceAddress : Option AddressDocument
  destinationAddress : Option AddressDocument
  totalWeightKg : Option PyNumber
  totalVolumeM3 : Option PyNumber
  lines : Option (List LineDocument)
  createdAt : Option String
  updatedAt : Option String
  extra : Extra orderMembers := .none orderMembers

/-! ## Decoding -/

/-- `data[key]` -/
def member {α : Type} (key : String) : Option α → Except PyErr α
  | some v => .ok v
  | none => .error ⟨.other "KeyError", "'" ++ key ++ "'"⟩

/-- How Python lists the names of missing arguments. -/
def listNames : List String → String
  | [] => ""
  | [a] => a
  | [a, b] => a ++ " and " ++ b
  | names => PyVal.joinWith ", " names.dropLast ++ ", and " ++ names.getLastD ""

namespace AddressDocument

/-- The parameters of `Address` that the document has no member for. -/
def missing (d : AddressDocument) : List String :=
  (addressMembers.zip [d.name, d.addressLine1, d.city, d.postalCode, d.countryCode]).filterMap
    fun p => if p.2.isNone then some p.1 else none

/-- `Address(**d)`: unknown keywords are refused, then missing ones. -/
def toAddress (d : AddressDocument) : Except PyErr Address :=
  match d.extra.entries with
  | (key, _) :: _ =>
    .error ⟨.TypeError, "Address.__init__() got an unexpected keyword argument '" ++ key ++ "'"⟩
  | [] =>
    match d.name, d.addressLine1, d.city, d.postalCode, d.countryCode with
    | some name, some addressLine1, some city, some postalCode, some countryCode =>
      .ok ⟨name, addressLine1, city, postalCode, countryCode⟩
    | _, _, _, _, _ =>
      .error ⟨.TypeError, "Address.__init__() missing " ++ toString d.missing.length ++
        " required positional argument" ++ (if d.missing.length = 1 then "" else "s") ++ ": " ++
        listNames (d.missing.map fun name => "'" ++ name ++ "'")⟩

end AddressDocument

namespace ManhattanSimulatorHttpClient

variable (rt : Runtime)

/-- `_parse_datetime` -/
def parseDatetime (value : String) : Except PyErr DateTime :=
  let text := String.ofList (value.toList.flatMap fun c => if c = 'Z' then "+00:00".toList else [c])
  (DateTime.fromisoformat rt.reprStr text).map DateTime.asUtc

/-- One item of the comprehension over `data.get("lines", [])`. -/
def toLine (line : LineDocument) : Except PyErr ExternalOrderLine := do
  let lineNumber ← member "line_number" line.lineNumber
  let sku ← member "sku" line.sku
  let description ← member "description" line.description
  let quantity ← member "quantity" line.quantity
  let uom ← member "uom" line.uom
  let unitWeightKg ← member "unit_weight_kg" line.unitWeightKg
  let unitVolumeM3 ← member "unit_volume_m3" line.unitVolumeM3
  let hazmatFlag ← member "hazmat_flag" line.hazmatFlag
  let temperatureClass ← member "temperature_class" line.temperatureClass
  return ⟨lineNumber, sku, description, quantity, uom, unitWeightKg, unitVolumeM3, hazmatFlag,
    temperatureClass⟩

/-- `_to_order` -/
def toOrder (data : OrderDocument) : Except PyErr ExternalOrder := do
  let orderId ← member "order_id" data.orderId
  let clientCode ← member "client_code" data.clientCode
  let facilityCode ← member "facility_code" data.facilityCode
  let orderType ← member "order_type" data.orderType
  let priority ← member "priority" data.priority
  let status ← member "status" data.status
  let sourceAddress ← (member "source_address" data.sourceAddress) >>= (·.toAddress)
  let destinationAddress ← (member "destination_address" data.destinationAddress) >>= (·.toAddress)
  let totalWeightKg ← member "total_weight_kg" data.totalWeightKg
  let totalVolumeM3 ← member "total_volume_m3" data.totalVolumeM3
  let lines ← (data.lines.getD []).mapM toLine
  let createdAt ← (member "created_at" data.createdAt) >>= parseDatetime rt
  let updatedAt ← (member "updated_at" data.updatedAt) >>= parseDatetime rt
  return ⟨orderId, clientCode, facilityCode, data.zoneCode, orderType, priority, status,
    sourceAddress, destinationAddress, totalWeightKg, totalVolumeM3, lines, createdAt, updatedAt⟩

/-- `get_orders_for_enrichment`, from the answer of the external API on. -/
def getOrdersForEnrichment (answer : Except PyErr (List OrderDocument)) :
    Except PyErr (List ExternalOrder) := do
  let data ← answer
  data.mapM (toOrder rt)

end ManhattanSimulatorHttpClient

/-- The cycle in which the external API answers a poll as `api` does. -/
def Cycle.polling (c : Cycle) (rt : Runtime)
    (api : Option DateTime → Nat → Except PyErr (List OrderDocument)) : Cycle :=
  { c with poll := fun updatedSince limit =>
      ManhattanSimulatorHttpClient.getOrdersForEnrichment rt (api updatedSince limit) }

end RulesEnrichment
