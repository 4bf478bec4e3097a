import RulesEnrichment.Hash
import RulesEnrichment.Lib.CodePoints
import RulesEnrichment.ProcessStep
import Mathlib.Algebra.Ring.Int.Defs

/-! # The hash identifies what is hashed

    An order id and the enriched fields may hold any code points, so the
    service is modelled again for such strings
    (`EnrichmentHashService.compute`); on strings of characters it is
    `computeHash` (`compute_eq_computeHash`).

    It hashes the text of one JSON object (`hashedContent`). A surrogate
    pair is written like the character it spells, so two ids can share a
    hash. Without surrogates the text has one reading: where SHA-256 has no
    collisions, equal hashes mean equal contents, and the order of keys
    never matters. -/

namespace RulesEnrichment

open Python

/-- What the hash service reads of an order. -/
structure HashedOrder where
  orderId : PyStr
  updatedAt : DateTime

/-- The object that the hash service renders. -/
def hashedContent (o : HashedOrder) (fields : JsonDict) : JsonDict where
  entries := [(.ofString "order_id", .str o.orderId),
    (.ofString "order_updated_at", .str (.ofString o.updatedAt.isoformat)),
    (.ofString "enriched_fields", fields.toVal)]
  wf := by
    have hkeys : [PyStr.ofString "order_id", .ofString "order_updated_at",
        .ofString "enriched_fields"].Nodup := by decide
    have hfields : fields.toVal.wf = true := fields.wf
    simp only [PyJson.wf, PyJson.wfFields, List.map_cons, List.map_nil, hkeys, hfields,
      decide_true, Bool.and_self]

/-- `EnrichmentHashService.compute`, for strings of any code points. -/
def EnrichmentHashService.compute (sha256 : String → String) (order : HashedOrder)
    (enrichedFields : JsonDict) : Except PyErr String :=
  match (hashedContent order enrichedFields).toVal.dumps with
  | .error msg => .error ⟨.other "ValueError", msg⟩
  | .ok canonical => .ok (sha256 canonical)

namespace EnrichmentHashService

theorem compute_of_text {sha256 : String → String} {o : HashedOrder} {fields : JsonDict} {t : String}
    (ht : (hashedContent o fields).toVal.dumps = .ok t) :
    compute sha256 o fields = .ok (sha256 t) := by
  unfold compute
  rw [ht]

theorem toVal_hashedContent (o : HashedOrder) (fields : JsonDict) :
    (hashedContent o fields).toVal =
      .dict [(.ofString "order_id", .str o.orderId),
        (.ofString "order_updated_at", .str (.ofString o.updatedAt.isoformat)),
        (.ofString "enriched_fields", fields.toVal)] := rfl

theorem ordinary_hashedContent {o : HashedOrder} {fields : JsonDict}
    (hid : o.orderId.surrogateFree = true) (h : fields.toVal.ordinary = true) :
    (hashedContent o fields).toVal.ordinary = true := by
  rw [toVal_hashedContent]
  simp only [PyJson.ordinary, PyJson.ordinaryFields, PyStr.surrogateFree_ofString, hid, h,
    Bool.and_self]

/-- On an order of the model the service computes the model's hash. -/
theorem compute_eq_computeHash (rt : Runtime) (o : ExternalOrder) {fields : JsonDict}
    (h : fields.toVal.ordinary = true) :
    compute rt.sha256 ⟨.ofString o.orderId, o.updatedAt⟩ fields =
      computeHash rt o (fields.narrow h) := by
  have hcontent : (hashedContent ⟨.ofString o.orderId, o.updatedAt⟩ fields).toVal.narrow =
      .dict [("order_id", .str o.orderId), ("order_updated_at", .str o.updatedAt.isoformat),
        ("enriched_fields", (fields.narrow h).toVal)] := by
    rw [toVal_hashedContent]
    simp only [PyJson.narrow, PyJson.narrowFields, PyStr.narrow_ofString]
    rfl
  have hordinary := ordinary_hashedContent (o := ⟨.ofString o.orderId, o.updatedAt⟩)
    (PyStr.surrogateFree_ofString _) h
  obtain ⟨t, ht⟩ := PyJson.dumps_ok hordinary (hashedContent _ fields).wf
  have hnarrow := PyJson.dumps_narrow _ hordinary
  rw [hcontent, ht] at hnarrow
  rw [compute_of_text ht]
  unfold computeHash
  rw [hnarrow]

theorem hashedContent_same_iff {o o' : HashedOrder} {fields fields' : JsonDict} :
    (hashedContent o fields).same (hashedContent o' fields') = true ↔
      o.orderId = o'.orderId ∧ o.updatedAt.isoformat = o'.updatedAt.isoformat ∧
        fields.same fields' = true := by
  have hupdated : (PyStr.ofString "order_updated_at" == PyStr.ofString "order_id") = false := by
    decide
  have hfields : (PyStr.ofString "enriched_fields" == PyStr.ofString "order_id") = false := by
    decide
  have hfields' : (PyStr.ofString "enriched_fields" == PyStr.ofString "order_updated_at") =
      false := by
    decide
  have hiso : PyStr.ofString o.updatedAt.isoformat = .ofString o'.updatedAt.isoformat ↔
      o.updatedAt.isoformat = o'.updatedAt.isoformat :=
    (Function.LeftInverse.injective PyStr.narrow_ofString).eq_iff
  unfold JsonDict.same
  rw [toVal_hashedContent, toVal_hashedContent]
  simp only [PyJson.same, PyJson.sameFields, List.lookup_cons, beq_self_eq_true, hupdated, hfields,
    hfields', List.length_cons, List.length_nil, Bool.true_and, Bool.and_true, Bool.and_eq_true,
    beq_iff_eq, hiso]

/-- **The idempotency key** identifies content, for strings without
    surrogates and integers of at most 4300 digits. -/
theorem compute_identifies_content {sha256 : String → String} (hinj : Function.Injective sha256)
    (o₁ o₂ : HashedOrder) (f₁ f₂ : JsonDict) (hid₁ : o₁.orderId.surrogateFree = true)
    (hid₂ : o₂.orderId.surrogateFree = true) (h₁ : f₁.toVal.ordinary = true)
    (h₂ : f₂.toVal.ordinary = true) :
    ∃ hash₁ hash₂, compute sha256 o₁ f₁ = .ok hash₁ ∧ compute sha256 o₂ f₂ = .ok hash₂ ∧
      (hash₁ = hash₂ ↔
        o₁.orderId = o₂.orderId ∧ o₁.updatedAt.isoformat = o₂.updatedAt.isoformat ∧
          f₁.same f₂ = true) := by
  have ho₁ := ordinary_hashedContent hid₁ h₁
  have ho₂ := ordinary_hashedContent hid₂ h₂
  have hw₁ := (hashedContent o₁ f₁).wf
  have hw₂ := (hashedContent o₂ f₂).wf
  obtain ⟨t₁, ht₁⟩ := PyJson.dumps_ok ho₁ hw₁
  obtain ⟨t₂, ht₂⟩ := PyJson.dumps_ok ho₂ hw₂
  refine ⟨sha256 t₁, sha256 t₂, compute_of_text ht₁, compute_of_text ht₂, ?_⟩
  calc sha256 t₁ = sha256 t₂
      ↔ t₁ = t₂ := hinj.eq_iff
    _ ↔ (hashedContent o₁ f₁).toVal.dumps = (hashedContent o₂ f₂).toVal.dumps := by
        rw [ht₁, ht₂, Except.ok.injEq]
    _ ↔ (hashedContent o₁ f₁).same (hashedContent o₂ f₂) = true :=
        PyJson.dumps_eq_iff ho₁ ho₂ hw₁ hw₂
    _ ↔ _ := hashedContent_same_iff

end EnrichmentHashService

/-! ## Two renderings of one content -/

namespace Sample

/-- The runtime with the digests of some texts; any other text keeps a
    digest of its own. -/
def hashing (known : List (String × String)) : Runtime :=
  { runtime with sha256 := fun text => (known.lookup text).getD ("#" ++ text) }

theorem hashing_injective {known : List (String × String)} (hnodup : (known.map Prod.snd).Nodup)
    (hdigests : ∀ p ∈ known, p.2.toList.head? ≠ some '#') :
    Function.Injective (hashing known).sha256 := by
  have hmem : ∀ {text digest : String}, known.lookup text = some digest →
      (text, digest) ∈ known := by
    intro text digest hlookup
    obtain ⟨before, after, hsplit, -⟩ := List.lookup_eq_some_iff.mp hlookup
    rw [hsplit]
    exact List.mem_append_right _ List.mem_cons_self
  have hknown : ∀ {text other digest : String}, known.lookup text = some digest →
      digest ≠ "#" ++ other := by
    intro text other digest hlookup hsame
    refine hdigests _ (hmem hlookup) ?_
    simp [hsame]
  intro s t hst
  change (known.lookup s).getD ("#" ++ s) = (known.lookup t).getD ("#" ++ t) at hst
  cases hs : known.lookup s with
  | none =>
    cases ht : known.lookup t with
    | none =>
      rw [hs, ht] at hst
      exact (String.append_right_inj _).mp hst
    | some digest =>
      rw [hs, ht] at hst
      exact absurd hst.symm (hknown ht)
  | some digest =>
    cases ht : known.lookup t with
    | none =>
      rw [hs, ht] at hst
      exact absurd hst (hknown hs)
    | some digest' =>
      rw [hs, ht] at hst
      have hpair : (s, digest) = (t, digest') :=
        List.inj_on_of_nodup_map hnodup (hmem hs) (hmem ht) hst
      exact congrArg Prod.fst hpair

/-- What is hashed for "ORD-1" with the fields below, and its SHA-256. -/
def canonical : String :=
  "\x7b\"enriched_fields\":\x7b\"lane\":\"ES01\",\"slot\":\x7b\"docks\":[\"A\",null]," ++
    "\"hour\":9\x7d\x7d," ++
    "\"order_id\":\"ORD-1\",\"order_updated_at\":\"2026-03-01T09:00:00+00:00\"\x7d"

def canonicalDigest : String := "607c825f32814fd688e71656faf6e73a90143b11b9347bb6d01a015e09cfbeae"

def slotFirst : JsonDict :=
  ⟨[(.ofString "slot", .dict [(.ofString "hour", .int 9),
      (.ofString "docks", .list [.str (.ofString "A"), .null])]),
    (.ofString "lane", .str (.ofString "ES01"))], by decide⟩

def laneFirst : JsonDict :=
  ⟨[(.ofString "lane", .str (.ofString "ES01")),
    (.ofString "slot", .dict [(.ofString "docks", .list [.str (.ofString "A"), .null]),
      (.ofString "hour", .int 9)])], by decide⟩

/-- The order "ORD-1", updated at nine. -/
def hashedOrder : HashedOrder := ⟨.ofString "ORD-1", nine⟩

/-- Orders with the ids U+1F600 and U+D83D U+DE00. -/
def astral : HashedOrder := ⟨[128512], nine⟩

def paired : HashedOrder := ⟨[55357, 56832], nine⟩

def longInteger : JsonDict := ⟨[(.ofString "n", .int (10 ^ PyJson.maxStrDigits))], by decide⟩

/-- What is hashed for both without fields, and its SHA-256. -/
def pairText : String :=
  "\x7b\"enriched_fields\":\x7b\x7d,\"order_id\":\"\\ud83d\\ude00\"," ++
    "\"order_updated_at\":\"2026-03-01T09:00:00+00:00\"\x7d"

def pairDigest : String := "1588ac9751c263e2e068429062c3e91488cf271debf557a06095f6c0379592a8"

end Sample

namespace EnrichmentHashService

theorem compute_identifies_renderings :
    let sha256 := (Sample.hashing [(Sample.canonical, Sample.canonicalDigest)]).sha256
    compute sha256 Sample.hashedOrder Sample.slotFirst = .ok Sample.canonicalDigest ∧
      compute sha256 Sample.hashedOrder Sample.laneFirst = .ok Sample.canonicalDigest := by
  intro sha256
  have hinj : Function.Injective sha256 := Sample.hashing_injective (by decide) (by decide)
  obtain ⟨hash₁, hash₂, hcompute₁, hcompute₂, hiff⟩ :=
    compute_identifies_content hinj Sample.hashedOrder Sample.hashedOrder Sample.slotFirst
      Sample.laneFirst (by decide) (by decide) (by decide) (by decide)
  have hdigest : compute sha256 Sample.hashedOrder Sample.laneFirst = .ok Sample.canonicalDigest := by
    decide +kernel
  -- the two renderings differ in the order of keys only
  have hsame : hash₁ = hash₂ := hiff.mpr ⟨rfl, rfl, by decide⟩
  refine ⟨?_, hdigest⟩
  rw [hcompute₁, hsame, ← hcompute₂, hdigest]

/-- A pair of surrogates and the character it spells share a hash, and an
    integer of 4301 digits leaves no hash at all. -/
theorem surrogate_pair_clashes :
    let sha256 := (Sample.hashing [(Sample.pairText, Sample.pairDigest)]).sha256
    Sample.paired.orderId ≠ Sample.astral.orderId ∧ Function.Injective sha256 ∧
      compute sha256 Sample.paired ⟨[], rfl⟩ = .ok Sample.pairDigest ∧
      compute sha256 Sample.astral ⟨[], rfl⟩ = .ok Sample.pairDigest ∧
      (compute sha256 Sample.hashedOrder Sample.longInteger).isOk = false := by
  have hlong : PyJson.tooLong (10 ^ PyJson.maxStrDigits) = true := by
    rw [PyJson.tooLong_iff, Int.natAbs_pow]
    exact Nat.pow_le_pow_left (by decide) _
  refine ⟨by decide, Sample.hashing_injective (by decide) (by decide), ?_, ?_, ?_⟩
  · decide +kernel
  · decide +kernel
  · unfold compute
    rw [toVal_hashedContent]
    simp only [JsonDict.toVal, Sample.longInteger, PyJson.dumps, PyJson.dumpsFields, hlong, if_true,
      Except.map]
    rfl

end EnrichmentHashService

end RulesEnrichment
