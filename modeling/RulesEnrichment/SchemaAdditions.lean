import RulesEnrichment.Decoding

/-! # Members beyond the schema

    `_to_order` reads an order and its lines member by member and so does
    not see what else is there; but it expands an address document into
    keyword arguments of `Address`, which refuses those it does not know.
    `toOrder_extends_iff`: a document that decodes may grow anywhere but in
    its addresses. -/

namespace RulesEnrichment

open Python Fallible ManhattanSimulatorHttpClient

/-! ## Documents that grow -/

/-- The further members of one object are among those of another. -/
def Extra.Extends {members : List String} (e e' : Extra members) : Prop :=
  e.entries.Sublist e'.entries

theorem Extra.eq_of_entries {members : List String} {e e' : Extra members}
    (h : e.entries = e'.entries) : e = e' := by
  cases e
  cases h
  rfl

/-- The same members of the schema, and perhaps others beside them. -/
structure AddressDocument.Extends (d d' : AddressDocument) : Prop where
  extra : d.extra.Extends d'.extra
  schema : d' = { d with extra := d'.extra }

structure LineDocument.Extends (d d' : LineDocument) : Prop where
  extra : d.extra.Extends d'.extra
  schema : d' = { d with extra := d'.extra }

structure OrderDocument.Extends (d d' : OrderDocument) : Prop where
  source : Option.Rel AddressDocument.Extends d.sourceAddress d'.sourceAddress
  destination : Option.Rel AddressDocument.Extends d.destinationAddress d'.destinationAddress
  lines : Option.Rel (List.Forall₂ LineDocument.Extends) d.lines d'.lines
  extra : d.extra.Extends d'.extra
  schema : d' = { d with
    sourceAddress := d'.sourceAddress
    destinationAddress := d'.destinationAddress
    lines := d'.lines
    extra := d'.extra }

/-! ## What the decoder sees of it -/

theorem toLine_extends {line line' : LineDocument} (h : line.Extends line') :
    toLine line' = toLine line := by
  rw [h.schema]
  rfl

theorem mapM_toLine_extends {lines lines' : List LineDocument}
    (h : List.Forall₂ LineDocument.Extends lines lines') :
    lines'.mapM toLine = lines.mapM toLine := by
  induction h with
  | nil => rfl
  | cons hline _ ih => rw [List.mapM_cons, List.mapM_cons, toLine_extends hline, ih]

theorem lines_extends {d d' : OrderDocument} (h : d.Extends d') :
    (d'.lines.getD []).mapM toLine = (d.lines.getD []).mapM toLine := by
  have hlines := h.lines
  generalize d.lines = lines at hlines
  generalize d'.lines = lines' at hlines
  cases hlines with
  | none => rfl
  | some hlines => exact mapM_toLine_extends hlines

/-- **An order and its lines** may have any further members. -/
theorem toOrder_extends (rt : Runtime) {d d' : OrderDocument} (h : d.Extends d')
    (hsource : d'.sourceAddress = d.sourceAddress)
    (hdestination : d'.destinationAddress = d.destinationAddress) :
    toOrder rt d' = toOrder rt d := by
  have hlines := lines_extends h
  unfold toOrder
  rw [hlines, hsource, hdestination, h.schema]

/-- An address that has grown from one without further members into one
    without further members has not grown. -/
theorem address_eq_of_plain {o o' : Option AddressDocument}
    (h : Option.Rel AddressDocument.Extends o o')
    (hplain : o'.all (·.extra.entries.isEmpty) = true) : o' = o := by
  cases h with
  | none => rfl
  | some h =>
    next a a' =>
    have hempty : a'.extra.entries = [] := List.isEmpty_iff.mp hplain
    have hsub := h.extra
    unfold Extra.Extends at hsub
    rw [hempty, List.sublist_nil] at hsub
    have hextra : a'.extra = a.extra := Extra.eq_of_entries (hempty.trans hsub.symm)
    rw [h.schema, hextra]

/-- **Additions to the contract** are tolerated if and only if none of them
    is to an address. -/
theorem toOrder_extends_iff {rt : Runtime} {d d' : OrderDocument} {o : ExternalOrder}
    (h : toOrder rt d = .ok o) (hext : d.Extends d') :
    toOrder rt d' = .ok o ↔
      d'.sourceAddress = d.sourceAddress ∧ d'.destinationAddress = d.destinationAddress := by
  constructor
  · intro hdecoded
    obtain ⟨-, hplain⟩ := toOrder_isOk.mp (isOk_iff.mpr ⟨o, hdecoded⟩)
    unfold OrderDocument.plainAddresses at hplain
    rw [Bool.and_eq_true] at hplain
    exact ⟨address_eq_of_plain hext.source hplain.1,
      address_eq_of_plain hext.destination hplain.2⟩
  · rintro ⟨hsource, hdestination⟩
    rw [toOrder_extends rt hext hsource hdestination, h]

namespace Sample

def lineDocument : LineDocument where
  lineNumber := some 1
  sku := some "SKU-1"
  description := some "Gloves"
  quantity := some 2
  uom := some "EA"
  unitWeightKg := some (.int 1)
  unitVolumeM3 := some (.int 1)
  hazmatFlag := some false
  temperatureClass := some "AMBIENT"

def withLine : OrderDocument := { document with lines := some [lineDocument] }

/-- The external API has learned about lots and waves. -/
def withLots : OrderDocument :=
  { document with
    lines := some [{ lineDocument with extra := ⟨[("lot", .str "L-7")], by decide⟩ }]
    extra := ⟨[("wave", .int 3)], by decide⟩ }

/-- The external API has learned about buildings. -/
def withBuilding : OrderDocument :=
  { document with
    sourceAddress := some { addressDocument with
      extra := ⟨[("building", .str "B2")], by decide⟩ } }

theorem addressDocument_extends : addressDocument.Extends addressDocument :=
  ⟨List.Sublist.refl _, rfl⟩

theorem withLine_extends : withLine.Extends withLots where
  source := .some addressDocument_extends
  destination := .some addressDocument_extends
  lines := .some (.cons ⟨List.nil_sublist _, rfl⟩ .nil)
  extra := List.nil_sublist _
  schema := rfl

theorem document_extends : document.Extends withBuilding where
  source := .some ⟨List.nil_sublist _, rfl⟩
  destination := .some addressDocument_extends
  lines := .none
  extra := List.nil_sublist _
  schema := rfl

end Sample

theorem new_line_members_tolerated :
    ∃ o, toOrder Sample.runtime Sample.withLine = .ok o ∧
      toOrder Sample.runtime Sample.withLots = .ok o := by
  have hgood : (toOrder Sample.runtime Sample.withLine).isOk = true := by decide
  obtain ⟨o, ho⟩ := isOk_iff.mp hgood
  exact ⟨o, ho, (toOrder_extends_iff ho Sample.withLine_extends).mpr ⟨rfl, rfl⟩⟩

/-- One new member of an address, and the order is not decoded any more. -/
theorem new_address_member_refused :
    (toOrder Sample.runtime Sample.document).isOk = true ∧
    Sample.document.Extends Sample.withBuilding ∧
    toOrder Sample.runtime Sample.withBuilding = .error ⟨.TypeError,
      "Address.__init__() got an unexpected keyword argument 'building'"⟩ :=
  ⟨by decide, Sample.document_extends, by decide⟩

end RulesEnrichment
