import RulesEnrichment.Lib.JsonText
import RulesEnrichment.Model.RuleEngine

/-! # What the idempotency hash determines

    The hash is taken of the order id, the order's `updated_at` and the
    enriched fields. Where SHA-256 has no collisions, two equal hashes of
    one order come from one `updated_at` and one text of the enriched
    fields (`computeHash_inj`); nothing else of the payload goes into it. -/

namespace RulesEnrichment

open Python StableSort

/-! ## Timestamps are written without escapes -/

theorem plain_zfill (width n : Nat) : plain (DateTime.zfill width n) = true := by
  have hdigit : ∀ c : Char, c.isDigit = true →
      c.toNat ≠ 34 ∧ c.toNat ≠ 92 ∧ 32 ≤ c.toNat ∧ c.toNat ≤ 126 := by
    intro c hc
    rw [Char.isDigit_iff_toNat] at hc
    have h0 : ('0' : Char).toNat = 48 := rfl
    have h9 : ('9' : Char).toNat = 57 := rfl
    omega
  unfold plain DateTime.zfill
  simp only [String.toList_ofList, List.all_append, Bool.and_eq_true, List.all_eq_true,
    decide_eq_true_eq]
  constructor
  · intro c hc
    rw [List.eq_of_mem_replicate hc]
    decide
  · intro c hc
    exact hdigit c (Nat.isDigit_of_mem_toDigits (by decide) (by decide) hc)

theorem plain_offsetText (us : Int) : plain (DateTime.offsetText us) = true := by
  unfold DateTime.offsetText
  simp only [plain_append, plain_zfill, Bool.and_eq_true]
  refine ⟨⟨⟨⟨?_, trivial⟩, by decide⟩, trivial⟩, ?_⟩
  · split <;> decide
  · split
    · decide
    · rw [plain_append, plain_append, plain_zfill]
      split
      · decide
      · rw [plain_append, plain_zfill]
        decide

theorem plain_isoformat (d : DateTime) : plain d.isoformat = true := by
  unfold DateTime.isoformat DateTime.format
  simp only [plain_append, plain_zfill, Bool.and_eq_true, Bool.and_true, Bool.true_and]
  have hfraction : plain (if d.microsecond = 0 then ""
      else "." ++ DateTime.zfill 6 d.microsecond) = true := by
    split
    · decide
    · rw [plain_append, plain_zfill]
      decide
  rw [hfraction]
  refine ⟨by decide, ?_⟩
  cases d.utcoffset with
  | none => decide
  | some us => exact plain_offsetText us

/-! ## Equal hashes -/

/-- `sort_keys`: the enriched fields come first. -/
theorem sortBy_hashFields (id updatedAt fields : String) : sortBy Prod.fst
    [("order_id", id), ("order_updated_at", updatedAt), ("enriched_fields", fields)] =
      [("enriched_fields", fields), ("order_id", id), ("order_updated_at", updatedAt)] := by
  have hid : ("order_id" : String) ≤ "order_updated_at" := by decide
  have hfields : ¬ ("order_id" : String) ≤ "enriched_fields" := by decide
  have hupdated : ¬ ("order_updated_at" : String) ≤ "enriched_fields" := by decide
  simp [sortBy_cons, List.orderedInsert, hid, hfields, hupdated]

/-- The canonical text: the fields' text, then the order id and
    `updated_at` as literals. -/
theorem computeHash_text {rt : Runtime} {o : ExternalOrder} {fields : JsonObject} {t : String}
    (ht : fields.toVal.dumps = .ok t) :
    computeHash rt o fields = .ok (rt.sha256 (("\x7b\"enriched_fields\":" ++ t ++
      ",\"order_id\":" ++ PyVal.quote o.orderId ++ ",\"order_updated_at\":") ++
      PyVal.quote o.updatedAt.isoformat ++ "\x7d")) := by
  have hkeys : PyVal.quote "enriched_fields" = "\"enriched_fields\"" ∧
      PyVal.quote "order_id" = "\"order_id\"" ∧
      PyVal.quote "order_updated_at" = "\"order_updated_at\"" := by decide
  obtain ⟨hfields, hid, hupdated⟩ := hkeys
  unfold computeHash
  simp only [PyVal.dumps, PyVal.dumpsFields, ht, Except.map, PyVal.objectText, sortBy_hashFields,
    List.map_cons, List.map_nil, PyVal.joinWith, hfields, hid, hupdated]
  congr 2
  apply String.toList_inj.mp
  simp [String.toList_append]

/-- **The hash** of one order determines its `updated_at` and the text of
    the enriched fields. -/
theorem computeHash_inj {rt : Runtime} (hinj : Function.Injective rt.sha256)
    {o o' : ExternalOrder} {fields fields' : JsonObject} {hash : String}
    (hid : o.orderId = o'.orderId) (h : computeHash rt o fields = .ok hash)
    (h' : computeHash rt o' fields' = .ok hash) :
    o.updatedAt.isoformat = o'.updatedAt.isoformat ∧ fields.toVal.dumps = fields'.toVal.dumps := by
  obtain ⟨t, ht⟩ := fields.dumps_ok
  obtain ⟨t', ht'⟩ := fields'.dumps_ok
  rw [computeHash_text ht, ← h', computeHash_text ht', Except.ok.injEq] at h
  have htext := hinj h
  rw [hid] at htext
  obtain ⟨hfront, hupdated⟩ := PyVal.quote_cancel (plain_isoformat _) (plain_isoformat _) htext
  refine ⟨hupdated, ?_⟩
  -- what stands around the fields' text is the same
  have hlist := String.toList_inj.mpr hfront
  simp only [String.toList_append, List.append_assoc] at hlist
  have htail := List.append_cancel_left hlist
  have hfields := List.append_cancel_right htail
  rw [ht, ht', String.toList_inj.mp hfields]

end RulesEnrichment
