import RulesEnrichment.Lib.Url

/-! # The URL of a submission

    `submit_enrichment` puts the order id into the path as it is, while the
    parameters of a query are encoded by `httpx`. The URL leads to the
    order if and only if the id is `Verbatim` (`submitUrl_addresses_iff`). -/

namespace RulesEnrichment

open Url

namespace ManhattanSimulatorHttpClient

/-- The URL that `_request` asks for; `__init__` has stripped the slashes
    at the end of `baseUrl`. -/
def requestUrl (baseUrl path : String) : String :=
  String.ofList (baseUrl.toList.rdropWhile (· = '/')) ++ path

/-- The URL of `submit_enrichment`. -/
def submitUrl (baseUrl orderId : String) : String :=
  requestUrl baseUrl ("/api/v1/orders/" ++ orderId ++ "/enrichment")

end ManhattanSimulatorHttpClient

open ManhattanSimulatorHttpClient

/-! ## What the URL should lead to -/

/-- The resource of the orders, below the base path. -/
def ordersSegments (b : Base) : List (List UInt8) :=
  b.segments ++ [utf8 "api".toList, utf8 "v1".toList, utf8 "orders".toList]

/-- The URL built for `orderId` leads to the enrichment of `target`. -/
def Addresses (b : Base) (orderId target : String) : Prop :=
  segments (submitUrl (String.ofList b.text) orderId).toList =
    ordersSegments b ++ [utf8 target.toList, utf8 "enrichment".toList]

instance (b : Base) (orderId target : String) : Decidable (Addresses b orderId target) :=
  inferInstanceAs (Decidable (_ = _))

/-- The id reads the same within a URL: no delimiters, no percent escapes,
    and no dot segment. -/
def Verbatim (orderId : String) : Prop :=
  ('?' ∉ orderId.toList ∧ '#' ∉ orderId.toList) ∧ '/' ∉ orderId.toList ∧
    hasEscape orderId.toList = false ∧ orderId.toList ≠ ['.'] ∧ orderId.toList ≠ ['.', '.']

instance (orderId : String) : Decidable (Verbatim orderId) :=
  inferInstanceAs (Decidable ((_ ∧ _) ∧ _ ∧ _ ∧ _ ∧ _))

/-! ## What it leads to -/

section

variable (b : Base) (orderId : String)

/-- The id and what follows it, up to a query or fragment. -/
def idPath : List Char := untilQuery (orderId.toList ++ '/' :: "enrichment".toList)

theorem path_submitUrl : Url.path (submitUrl (String.ofList b.text) orderId).toList =
    b.directory ++ '/' :: ("api".toList ++ '/' :: ("v1".toList ++ '/' :: ("orders".toList ++
      '/' :: idPath orderId))) := by
  have htext : (submitUrl (String.ofList b.text) orderId).toList =
      b.origin ++ (b.directory ++ '/' :: (("api/v1/orders/".toList) ++
        (orderId.toList ++ '/' :: "enrichment".toList))) := by
    unfold submitUrl requestUrl
    simp only [String.toList_append, String.toList_ofList, Base.rdropWhile_text]
    simp
  have hchars : (b.directory ++ '/' :: "api/v1/orders/".toList).all inPath = true := by
    have hfixed : ('/' :: "api/v1/orders/".toList).all inPath = true := by decide
    rw [List.all_append, Base.directory_chars, hfixed, Bool.and_true]
  rw [htext, Base.path_origin (Base.directory_head _)]
  have hsplit := untilQuery_append hchars (orderId.toList ++ '/' :: "enrichment".toList)
  simpa [idPath] using hsplit

theorem segments_submitUrl : segments (submitUrl (String.ofList b.text) orderId).toList =
    descend (ordersSegments b) (pieces (idPath orderId)) ++ trailing (pieces (idPath orderId)) := by
  have hraw : rawSegments (Url.path (submitUrl (String.ofList b.text) orderId).toList) =
      rawSegments b.directory ++ ([utf8 "api".toList, utf8 "v1".toList, utf8 "orders".toList] ++
        pieces (idPath orderId)) := by
    rw [path_submitUrl, rawSegments_append, pieces_append, pieces_append, pieces_append]
    rfl
  have hfixed : descend b.segments [utf8 "api".toList, utf8 "v1".toList, utf8 "orders".toList] =
      ordersSegments b := descend_of_proper (by decide) b.segments
  unfold segments
  rw [hraw, descend_append, descend_append, trailing_append (by simp),
    trailing_append (pieces_ne_nil _)]
  show descend (descend b.segments _) _ ++ _ = _
  rw [hfixed]

end

/-! ## The order itself -/

section

variable {b : Base} {orderId : String}

/-- Without a query or fragment the id is followed by `enrichment`. -/
theorem addresses_iff_of_path (hpath : orderId.toList.all inPath = true) :
    Addresses b orderId orderId ↔ descend (ordersSegments b) (pieces orderId.toList) =
      ordersSegments b ++ [utf8 orderId.toList] := by
  have hid : idPath orderId = orderId.toList ++ '/' :: "enrichment".toList := by
    have hfixed : ('/' :: "enrichment".toList).all inPath = true := by decide
    apply untilQuery_eq_self
    rw [List.all_append, hpath, hfixed, Bool.and_true]
  have hlast : pieces "enrichment".toList = [utf8 "enrichment".toList] := by decide
  have hproper : [utf8 "enrichment".toList].all proper = true := by decide
  have htrailing : trailing [utf8 "enrichment".toList] = [] := by decide
  unfold Addresses
  rw [segments_submitUrl, hid, pieces_append, hlast, trailing_append (List.cons_ne_nil _ _),
    htrailing, List.append_nil, descend_append, descend_of_proper hproper,
    List.append_cons (ordersSegments b), List.append_cancel_right_eq]

/-- A query or fragment within the id leaves only a part of the id in the
    path. -/
theorem not_addresses_of_query (hpath : ¬ orderId.toList.all inPath = true) :
    ¬ Addresses b orderId orderId := by
  obtain ⟨hcut, hlt⟩ := untilQuery_cut hpath ('/' :: "enrichment".toList)
  intro h
  unfold Addresses at h
  rw [segments_submitUrl, idPath, hcut] at h
  have hle := length_le_of_descend h
  omega

theorem addresses_self_iff : Addresses b orderId orderId ↔ Verbatim orderId := by
  unfold Verbatim
  by_cases hpath : orderId.toList.all inPath = true
  · rw [addresses_iff_of_path hpath, descend_pieces_iff]
    exact (and_iff_right (all_inPath_iff.mp hpath)).symm
  · exact iff_of_false (not_addresses_of_query hpath) fun h => hpath (all_inPath_iff.mpr h.1)

/-- A URL leads to one order. -/
theorem Addresses.unique {target target' : String} (h : Addresses b orderId target)
    (h' : Addresses b orderId target') : target = target' := by
  unfold Addresses at h h'
  rw [h, List.append_cancel_left_eq] at h'
  rw [List.cons.injEq] at h'
  exact String.toList_inj.mp (utf8_injective h'.1)

end

/-- **The submission reaches the order it is for** if and only if the id is
    verbatim; and no two such ids have one resource. -/
theorem submitUrl_addresses_iff (b : Base) (orderId : String) :
    (Addresses b orderId orderId ↔ Verbatim orderId) ∧
      ∀ other, Verbatim orderId → Verbatim other →
        segments (submitUrl (String.ofList b.text) orderId).toList =
          segments (submitUrl (String.ofList b.text) other).toList → orderId = other := by
  refine ⟨addresses_self_iff, ?_⟩
  intro other hid hother hsame
  have haddresses : Addresses b orderId orderId := addresses_self_iff.mpr hid
  have haddressesOther : Addresses b other other := addresses_self_iff.mpr hother
  unfold Addresses at haddresses
  rw [hsame] at haddresses
  exact Addresses.unique haddresses haddressesOther

/-- `external_api_base_url` as the settings have it. -/
def Sample.localBase : Base where
  scheme := "http".toList
  authority := "localhost:8000".toList
  path := []

theorem submissions_reach_their_orders :
    Addresses Sample.localBase "ORD-1" "ORD-1" ∧
      segments (submitUrl (String.ofList Sample.localBase.text) "ORD-1").toList ≠
        segments (submitUrl (String.ofList Sample.localBase.text) "ORD-2").toList := by
  obtain ⟨haddresses, hdistinct⟩ := submitUrl_addresses_iff Sample.localBase "ORD-1"
  refine ⟨haddresses.mpr (by decide), ?_⟩
  intro hsame
  exact absurd (hdistinct "ORD-2" (by decide) (by decide) hsame) (by decide)

/-- An id with a dot segment leads to another order. -/
theorem submission_reaches_other_order :
    submitUrl (String.ofList Sample.localBase.text) "ORD-1/../ORD-2" =
      "http://localhost:8000/api/v1/orders/ORD-1/../ORD-2/enrichment" ∧
    Addresses Sample.localBase "ORD-1/../ORD-2" "ORD-2" ∧
    ¬ Addresses Sample.localBase "ORD-1/../ORD-2" "ORD-1/../ORD-2" := by
  refine ⟨by decide, by decide, by decide⟩

end RulesEnrichment
