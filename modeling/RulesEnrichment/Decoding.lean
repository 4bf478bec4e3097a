import RulesEnrichment.Model.OrderDecoder
import RulesEnrichment.ProcessStep

/-! # One malformed document stops its batch

    `run_once` handles the orders of a batch one by one and counts the ones
    that fail; but the batch is decoded as a whole before that, so one
    document that cannot be decoded keeps all the others back.
    `batch_handed_over_iff` says when every well-formed order of an answer
    is handed over. -/

namespace RulesEnrichment

open Python Fallible ManhattanSimulatorHttpClient

/-! ## Well-formed documents -/

/-- All parameters of `Address` are there. -/
def AddressDocument.wellFormed (d : AddressDocument) : Bool :=
  d.name.isSome && d.addressLine1.isSome && d.city.isSome && d.postalCode.isSome &&
    d.countryCode.isSome

def LineDocument.wellFormed (d : LineDocument) : Bool :=
  d.lineNumber.isSome && d.sku.isSome && d.description.isSome && d.quantity.isSome &&
    d.uom.isSome && d.unitWeightKg.isSome && d.unitVolumeM3.isSome && d.hazmatFlag.isSome &&
    d.temperatureClass.isSome

namespace OrderDocument

variable (rt : Runtime) (d : OrderDocument)

/-- All required members are there, at every level, and the dates parse. -/
def wellFormed : Bool :=
  d.orderId.isSome && d.clientCode.isSome && d.facilityCode.isSome && d.orderType.isSome &&
    d.priority.isSome && d.status.isSome && d.sourceAddress.any (·.wellFormed) &&
    d.destinationAddress.any (·.wellFormed) && d.totalWeightKg.isSome &&
    d.totalVolumeM3.isSome && (d.lines.getD []).all (·.wellFormed) &&
    d.createdAt.any (fun text => (parseDatetime rt text).isOk) &&
    d.updatedAt.any (fun text => (parseDatetime rt text).isOk)

/-- The addresses have the members of the schema only. -/
def plainAddresses : Bool :=
  d.sourceAddress.all (·.extra.entries.isEmpty) &&
    d.destinationAddress.all (·.extra.entries.isEmpty)

/-- The key under which the rules of the order are cached. -/
def scope : ScopeKey := ⟨d.clientCode, d.facilityCode, d.zoneCode⟩

end OrderDocument

/-! ## What is decoded -/

theorem member_eq_ok {α : Type} {key : String} {o : Option α} {a : α} :
    member key o = .ok a ↔ o = some a := by
  cases o with
  | none => simp [member]
  | some b => simp [member]

theorem member_isOk {α : Type} {key : String} {o : Option α} :
    (member key o).isOk = true ↔ o.isSome = true := by
  cases o with
  | none => simp [member, Except.isOk, Except.toBool]
  | some a => simp [member, Except.isOk, Except.toBool]

theorem exists_member {α : Type} {key : String} {o : Option α} {p : α → Bool} :
    (∃ a, member key o = .ok a ∧ p a = true) ↔ o.any p = true := by
  cases o with
  | none => simp [member]
  | some a => simp [member]

theorem toAddress_isOk {d : AddressDocument} :
    d.toAddress.isOk = true ↔ d.wellFormed = true ∧ d.extra.entries.isEmpty = true := by
  unfold AddressDocument.toAddress AddressDocument.wellFormed
  cases hextra : d.extra.entries with
  | cons p ps => simp [Except.isOk, Except.toBool]
  | nil =>
    simp only [List.isEmpty_nil, and_true]
    split
    · next h₁ h₂ h₃ h₄ h₅ => simp [h₁, h₂, h₃, h₄, h₅, Except.isOk, Except.toBool]
    · next hmissing =>
      simp only [Except.isOk, Except.toBool, Bool.and_eq_true, Option.isSome_iff_exists]
      constructor
      · intro h
        cases h
      · rintro ⟨⟨⟨⟨⟨a, ha⟩, b, hb⟩, c, hc⟩, p, hp⟩, q, hq⟩
        exact (hmissing a b c p q ha hb hc hp hq).elim

theorem any_toAddress_isOk {o : Option AddressDocument} :
    o.any (·.toAddress.isOk) = true ↔
      o.any (·.wellFormed) = true ∧ o.all (·.extra.entries.isEmpty) = true := by
  cases o with
  | none => simp
  | some d => simp only [Option.any_some, Option.all_some, toAddress_isOk]

theorem toLine_isOk {line : LineDocument} :
    (toLine line).isOk = true ↔ line.wellFormed = true := by
  unfold toLine LineDocument.wellFormed
  -- what is read does not decide whether the next member is there
  simp only [bind_isOk, pure_isOk, exists_and_right, and_true, ← isOk_iff, member_isOk,
    Bool.and_eq_true, and_assoc]

/-- **Decoding a document** goes well if and only if it is well formed and
    its addresses have no further members. -/
theorem toOrder_isOk {rt : Runtime} {d : OrderDocument} :
    (toOrder rt d).isOk = true ↔ d.wellFormed rt = true ∧ d.plainAddresses = true := by
  have hsteps : (toOrder rt d).isOk = true ↔
      d.orderId.isSome = true ∧ d.clientCode.isSome = true ∧ d.facilityCode.isSome = true ∧
      d.orderType.isSome = true ∧ d.priority.isSome = true ∧ d.status.isSome = true ∧
      (d.sourceAddress.any (·.wellFormed) = true ∧
        d.sourceAddress.all (·.extra.entries.isEmpty) = true) ∧
      (d.destinationAddress.any (·.wellFormed) = true ∧
        d.destinationAddress.all (·.extra.entries.isEmpty) = true) ∧
      d.totalWeightKg.isSome = true ∧ d.totalVolumeM3.isSome = true ∧
      (∀ line ∈ d.lines.getD [], line.wellFormed = true) ∧
      d.createdAt.any (fun text => (parseDatetime rt text).isOk) = true ∧
      d.updatedAt.any (fun text => (parseDatetime rt text).isOk) = true := by
    unfold toOrder
    simp only [bind_isOk, pure_isOk, exists_and_right, and_true, ← isOk_iff, member_isOk,
      exists_member, any_toAddress_isOk, mapM_isOk, toLine_isOk]
  rw [hsteps]
  unfold OrderDocument.wellFormed OrderDocument.plainAddresses
  simp only [Bool.and_eq_true, List.all_eq_true]
  tauto

/-! ## The rules of a batch -/

/-- When the cached rules were loaded. -/
def RulesCache.times (cache : RulesCache) : ScopeKey → Option DateTime :=
  fun key => (cache key).map (·.ts)

/-- Rules loaded at that time can be used at `now`. -/
def freshAt (ttlSeconds : Int) (now : DateTime) (loaded : Option DateTime) : Bool :=
  loaded.any fun ts => (totalSeconds (now.instant - ts.instant)).leInt ttlSeconds

/-- The rules that `keys` ask for, one after the other from the position `i`
    on, are cached and fresh, or else their query does not fail. -/
def rulesAnswer (ttlSeconds : Int) (env : Nat → OrderEnv) :
    Nat → List ScopeKey → (ScopeKey → Option DateTime) → Bool
  | _, [], _ => true
  | i, key :: keys, loaded =>
    if freshAt ttlSeconds (env i).now (loaded key) then
      rulesAnswer ttlSeconds env (i + 1) keys loaded
    else
      (env i).rulesFault.isNone &&
        rulesAnswer ttlSeconds env (i + 1) keys (Function.update loaded key (some (env i).now))

section refresh

variable {r : RefreshCall} {db : Database} {cache : RulesCache}

theorem isSome_filter_isFresh :
    ((cache r.key).filter (·.isFresh r)).isSome = freshAt r.ttlSeconds r.now (cache.times r.key) := by
  unfold freshAt RulesCache.times
  rw [Option.isSome_filter, Option.any_map]
  rfl

theorem refreshRules_of_fresh (h : freshAt r.ttlSeconds r.now (cache.times r.key) = true) :
    ∃ rules, refreshRules r db cache = (.ok rules, cache) := by
  rw [← isSome_filter_isFresh] at h
  obtain ⟨e, he⟩ := Option.isSome_iff_exists.mp h
  unfold refreshRules
  rw [he]
  exact ⟨_, rfl⟩

theorem refreshRules_of_stale (h : freshAt r.ttlSeconds r.now (cache.times r.key) = false) :
    refreshRules r db cache =
      match r.fault with
      | some e => (.error e, cache)
      | none => (.ok (r.load db), Function.update cache r.key (some ⟨r.now, r.load db⟩)) := by
  rw [← isSome_filter_isFresh] at h
  have hnone := Option.not_isSome_iff_eq_none.mp (by rw [h]; exact Bool.false_ne_true)
  unfold refreshRules
  cases r.fault <;> simp only [hnone]

theorem times_update (key : ScopeKey) (e : CacheEntry) :
    RulesCache.times (Function.update cache key (some e)) =
      Function.update cache.times key (some e.ts) := by
  funext key'
  unfold RulesCache.times
  by_cases hkey : key' = key
  · subst hkey
    rw [Function.update_self, Function.update_self]
    rfl
  · rw [Function.update_of_ne hkey, Function.update_of_ne hkey]

end refresh

/-! ## The loop over the batch -/

section loop

variable {f : EnrichmentFacade} {env : Nat → OrderEnv}

/-- The loop hands over the orders up to one whose rules cannot be loaded. -/
theorem handled_handleOrders (orders : List ExternalOrder) (i : Nat) (s : LoopState) :
    ∃ done rest, orders = done ++ rest ∧
      (f.handleOrders env i orders s).2.handled.map (·.call.order) =
        s.handled.map (·.call.order) ++ done ∧
      ((f.handleOrders env i orders s).1 = none ↔ rest = []) := by
  induction orders generalizing i s with
  | nil => exact ⟨[], [], rfl, (List.append_nil _).symm, by simp [EnrichmentFacade.handleOrders]⟩
  | cons order orders ih =>
    unfold EnrichmentFacade.handleOrders
    cases hh : f.handleOrder (env i) order s with
    | error e => exact ⟨[], order :: orders, rfl, (List.append_nil _).symm, by simp⟩
    | ok s' =>
      obtain ⟨done, rest, hsplit, hdone, hend⟩ := ih (i + 1) s'
      obtain ⟨rules, _, _, _, hhandled⟩ := EnrichmentFacade.handleOrder_ok hh
      refine ⟨order :: done, rest, by rw [hsplit]; rfl, ?_, hend⟩
      show (f.handleOrders env (i + 1) orders s').2.handled.map (·.call.order) = _
      rw [hdone, hhandled, List.map_append, List.append_assoc]
      rfl

theorem handleOrder_of_refresh {e : OrderEnv} {order : ExternalOrder} {s : LoopState}
    {rules : List EnrichmentRule} {cache : RulesCache}
    (h : refreshRules (f.refreshCall e order) s.world.db s.cache = (.ok rules, cache)) :
    ∃ s', f.handleOrder e order s = .ok s' ∧ s'.cache = cache := by
  unfold EnrichmentFacade.handleOrder
  rw [h]
  exact ⟨_, rfl, rfl⟩

theorem handleOrder_of_refresh_error {e : OrderEnv} {order : ExternalOrder} {s : LoopState}
    {err : PyErr} {cache : RulesCache}
    (h : refreshRules (f.refreshCall e order) s.world.db s.cache = (.error err, cache)) :
    f.handleOrder e order s = .error err := by
  unfold EnrichmentFacade.handleOrder
  rw [h]

/-- **The loop ends regularly** if and only if the rules of every order can
    be had. -/
theorem handleOrders_ends_iff (orders : List ExternalOrder) (i : Nat) (s : LoopState) :
    (f.handleOrders env i orders s).1 = none ↔
      rulesAnswer f.ruleCacheTtlSeconds env i (orders.map scopeOf) s.cache.times = true := by
  induction orders generalizing i s with
  | nil => exact ⟨fun _ => rfl, fun _ => rfl⟩
  | cons order orders ih =>
    let r := f.refreshCall (env i) order
    unfold EnrichmentFacade.handleOrders
    show _ ↔ (if freshAt r.ttlSeconds r.now (s.cache.times r.key) = true then _ else _) = true
    cases hfresh : freshAt r.ttlSeconds r.now (s.cache.times r.key) with
    | true =>
      obtain ⟨rules, hrefresh⟩ := @refreshRules_of_fresh r s.world.db s.cache hfresh
      obtain ⟨s', hs', hcache⟩ := handleOrder_of_refresh hrefresh
      rw [hs', if_pos rfl, ← hcache]
      exact ih (i + 1) s'
    | false =>
      have hrefresh := @refreshRules_of_stale r s.world.db s.cache hfresh
      rw [if_neg Bool.false_ne_true]
      cases hfault : (env i).rulesFault with
      | some err =>
        have hr : r.fault = some err := hfault
        rw [hr] at hrefresh
        simp [handleOrder_of_refresh_error hrefresh]
      | none =>
        have hr : r.fault = none := hfault
        rw [hr] at hrefresh
        obtain ⟨s', hs', hcache⟩ := handleOrder_of_refresh hrefresh
        have htimes : s'.cache.times =
            Function.update s.cache.times (scopeOf order) (some (env i).now) := by
          rw [hcache, times_update]
          rfl
        rw [hs', Option.isNone_none, Bool.true_and, ← htimes]
        exact ih (i + 1) s'

end loop

/-! ## A cycle over an answer -/

/-- Each well-formed document of the answer is decoded and its order handed
    to `execute`, as often as it is there and in the order of the answer. -/
def HandsOver (rt : Runtime) (docs : List OrderDocument) (handled : List Handled) : Prop :=
  ∃ orders, List.Forall₂ (fun d order => toOrder rt d = .ok order)
      (docs.filter (·.wellFormed rt)) orders ∧
    List.Sublist orders (handled.map (·.call.order))

/-- Nothing is handed over: nothing was to be. -/
theorem handsOver_nil_iff {rt : Runtime} {docs : List OrderDocument} :
    HandsOver rt docs [] ↔ ∀ d ∈ docs, d.wellFormed rt = false := by
  have hfilter : docs.filter (·.wellFormed rt) = [] ↔ ∀ d ∈ docs, d.wellFormed rt = false := by
    simp only [List.filter_eq_nil_iff, Bool.not_eq_true]
  rw [← hfilter]
  constructor
  · rintro ⟨orders, hdecoded, hsub⟩
    rw [List.map_nil, List.sublist_nil] at hsub
    subst hsub
    exact List.forall₂_nil_right_iff.mp hdecoded
  · intro hnil
    rw [HandsOver, hnil]
    exact ⟨[], List.Forall₂.nil, List.Sublist.refl _⟩

/-- Of documents that are all well formed and decoded, all orders must be
    handed over. -/
theorem handsOver_iff_of_decoded {rt : Runtime} {docs : List OrderDocument}
    {orders done rest : List ExternalOrder} {handled : List Handled}
    (hwf : ∀ d ∈ docs, d.wellFormed rt = true) (h : docs.mapM (toOrder rt) = .ok orders)
    (hsplit : orders = done ++ rest) (hdone : handled.map (·.call.order) = done) :
    HandsOver rt docs handled ↔ rest = [] := by
  rw [HandsOver, List.filter_eq_self.mpr hwf, hdone]
  constructor
  · rintro ⟨orders', hdecoded, hsub⟩
    have hsame : orders' = orders := by
      rw [← mapM_eq_ok, h] at hdecoded
      cases hdecoded
      rfl
    have hlen := hsub.length_le
    rw [hsame, hsplit, List.length_append] at hlen
    exact List.eq_nil_of_length_eq_zero (by omega)
  · intro hrest
    rw [hrest, List.append_nil] at hsplit
    exact ⟨orders, mapM_eq_ok.mp h, by rw [hsplit]⟩

/-- The scope of a decoded order is that of its document. -/
theorem scopeOf_toOrder {rt : Runtime} {d : OrderDocument} {order : ExternalOrder}
    (h : toOrder rt d = .ok order) : scopeOf order = d.scope := by
  unfold toOrder at h
  simp only [bind_eq_ok, member_eq_ok] at h
  obtain ⟨_, _, clientCode, hclient, facilityCode, hfacility, h⟩ := h
  obtain ⟨_, _, _, _, _, _, _, _, _, _, _, _, _, _, _, _, _, _, _, _, h⟩ := h
  cases h
  unfold scopeOf OrderDocument.scope
  rw [hclient, hfacility]

section cycle

variable (f : EnrichmentFacade) (c : Cycle) (docs : List OrderDocument)
  (updatedSince : Option DateTime) (w : World) (cache : RulesCache)

/-- The cycle in which the external API answers with `docs`. -/
def cycleOver : Except PyErr CycleResult × LoopState :=
  f.runOnce (c.polling f.process.runtime fun _ _ => .ok docs) updatedSince w cache

variable {f c docs updatedSince w cache}

/-- **One bad document** ends the cycle before any order is handled,
    wherever it stands in the answer. -/
theorem cycleOver_of_undecodable {d : OrderDocument} (hd : d ∈ docs)
    (hbad : (toOrder f.process.runtime d).isOk = false) :
    (cycleOver f c docs updatedSince w cache).1.isOk = false ∧
      (cycleOver f c docs updatedSince w cache).2.handled = [] := by
  obtain ⟨e, he⟩ := mapM_error hd hbad
  have hpoll : (c.polling f.process.runtime fun _ _ => .ok docs).poll updatedSince f.pollBatchSize =
      .error e := he
  unfold cycleOver EnrichmentFacade.runOnce
  rw [hpoll]
  exact ⟨rfl, rfl⟩

/-- An answer that is decoded is handed over as far as the loop comes. -/
theorem cycleOver_of_decoded {orders : List ExternalOrder}
    (h : docs.mapM (toOrder f.process.runtime) = .ok orders) :
    ∃ done rest, orders = done ++ rest ∧
      (cycleOver f c docs updatedSince w cache).2.handled.map (·.call.order) = done ∧
      (rest = [] ↔ rulesAnswer f.ruleCacheTtlSeconds c.env 0 (docs.map (·.scope)) cache.times =
        true) := by
  have hpoll : (c.polling f.process.runtime fun _ _ => .ok docs).poll updatedSince f.pollBatchSize =
      .ok orders := h
  have hscopes : docs.map (·.scope) = orders.map scopeOf := by
    have hforall := mapM_eq_ok.mp h
    clear hpoll h
    induction hforall with
    | nil => rfl
    | cons hd _ ih => rw [List.map_cons, List.map_cons, ih, scopeOf_toOrder hd]
  let s : LoopState :=
    ⟨w.issue c.runId, cache, 0, 0, EnrichmentFacade.startCursor c updatedSince, []⟩
  have hloop : (cycleOver f c docs updatedSince w cache).2 =
      (f.handleOrders c.env 0 orders s).2 := by
    unfold cycleOver EnrichmentFacade.runOnce
    simp only [hpoll]
    split <;> next hend => exact (congrArg Prod.snd hend).symm
  obtain ⟨done, rest, hsplit, hdone, hrest⟩ := @handled_handleOrders f c.env orders 0 s
  refine ⟨done, rest, hsplit, ?_, ?_⟩
  · rw [hloop, hdone]
    rfl
  · rw [hscopes, ← hrest]
    exact handleOrders_ends_iff orders 0 s

end cycle

/-- **Every well-formed order of an answer is handed over** if and only if
    none of its documents is well formed, or they all are, without further
    members in their addresses, and the rules of every order can be had. -/
theorem batch_handed_over_iff (f : EnrichmentFacade) (c : Cycle) (docs : List OrderDocument)
    (updatedSince : Option DateTime) (w : World) (cache : RulesCache) :
    HandsOver f.process.runtime docs (cycleOver f c docs updatedSince w cache).2.handled ↔
      (∀ d ∈ docs, d.wellFormed f.process.runtime = false) ∨
      ((∀ d ∈ docs, d.wellFormed f.process.runtime = true ∧ d.plainAddresses = true) ∧
        rulesAnswer f.ruleCacheTtlSeconds c.env 0 (docs.map (·.scope)) cache.times = true) := by
  by_cases hall : ∀ d ∈ docs, (toOrder f.process.runtime d).isOk = true
  · obtain ⟨orders, h⟩ := isOk_iff.mp (mapM_isOk.mpr hall)
    obtain ⟨done, rest, hsplit, hdone, hrest⟩ :=
      @cycleOver_of_decoded f c docs updatedSince w cache orders h
    have hgood : ∀ d ∈ docs, d.wellFormed f.process.runtime = true ∧ d.plainAddresses = true :=
      fun d hd => toOrder_isOk.mp (hall d hd)
    rw [handsOver_iff_of_decoded (fun d hd => (hgood d hd).1) h hsplit hdone, hrest]
    constructor
    · intro hrules
      exact Or.inr ⟨hgood, hrules⟩
    · rintro (hnone | ⟨-, hrules⟩)
      · -- malformed and well formed at once: the answer is empty
        have hempty : docs = [] := by
          refine List.eq_nil_iff_forall_not_mem.mpr ?_
          intro d hd
          have hbad := hnone d hd
          rw [(hgood d hd).1] at hbad
          cases hbad
        rw [hempty]
        rfl
      · exact hrules
  · push Not at hall
    obtain ⟨d, hd, hbad⟩ := hall
    obtain ⟨-, hnothing⟩ := @cycleOver_of_undecodable f c docs updatedSince w cache d hd
      (Bool.eq_false_iff.mpr hbad)
    rw [hnothing, handsOver_nil_iff]
    constructor
    · exact Or.inl
    · rintro (hnone | ⟨hgood, -⟩)
      · exact hnone
      · exact (hbad (toOrder_isOk.mpr (hgood d hd))).elim

namespace Sample

def addressDocument : AddressDocument where
  name := some "Depot"
  addressLine1 := some "Via Roma 1"
  city := some "Milano"
  postalCode := some "20100"
  countryCode := some "IT"

def document : OrderDocument where
  orderId := some "O-1"
  clientCode := some "DHL"
  facilityCode := some "FC-MIL-01"
  zoneCode := none
  orderType := some "B2C"
  priority := some 1
  status := some "READY_FOR_ENRICHMENT"
  sourceAddress := some addressDocument
  destinationAddress := some addressDocument
  totalWeightKg := some (.int 1)
  totalVolumeM3 := some (.int 1)
  lines := none
  createdAt := some "2026-03-01T09:00:00Z"
  updatedAt := some "2026-03-01T09:00:00Z"

/-- A document that lacks its `order_id`. -/
def withoutId : OrderDocument := { document with orderId := none }

def quietCycle : Cycle where
  started := nine
  runId := secondId
  poll _ _ := .ok []
  env _ := { now := ten, correlationId := correlationId, submit := accept }

example : (toOrder runtime document).map (·.updatedAt) = .ok nine := by decide

/-- One document without `order_id`, before or after a good one, keeps the
    good one back; by itself it is handed over. -/
theorem malformed_document_holds_up_batch :
    document.wellFormed runtime = true ∧
    toOrder runtime withoutId = .error ⟨.other "KeyError", "'order_id'"⟩ ∧
    (∀ docs ∈ [[document, withoutId], [withoutId, document]], ¬ HandsOver runtime docs
      (cycleOver ⟨useCase 3, 100, 300⟩ quietCycle docs none (World.fresh rules) .empty).2.handled) ∧
    HandsOver runtime [document]
      (cycleOver ⟨useCase 3, 100, 300⟩ quietCycle [document] none (World.fresh rules)
        .empty).2.handled := by
  have hgood : document.wellFormed runtime = true := by decide
  refine ⟨hgood, rfl, ?_, ?_⟩
  · intro docs hdocs hover
    have hin : withoutId ∈ docs ∧ document ∈ docs := by
      simp only [List.mem_cons, List.not_mem_nil, or_false] at hdocs
      rcases hdocs with rfl | rfl <;> simp
    have hraises : (toOrder runtime withoutId).isOk = false := rfl
    obtain ⟨-, hnothing⟩ := @cycleOver_of_undecodable ⟨useCase 3, 100, 300⟩ quietCycle docs none
      (World.fresh rules) .empty withoutId hin.1 hraises
    rw [hnothing, handsOver_nil_iff] at hover
    have hnot := hover document hin.2
    rw [hgood] at hnot
    cases hnot
  · have hwf : ∀ d ∈ [document], d.wellFormed runtime = true := by
      intro d hd
      rw [List.mem_singleton.mp hd]
      exact hgood
    have hdecodes : ∀ d ∈ [document], (toOrder runtime d).isOk = true := by
      intro d hd
      exact toOrder_isOk.mpr ⟨hwf d hd, by rw [List.mem_singleton.mp hd]; rfl⟩
    obtain ⟨orders, horders⟩ := isOk_iff.mp (mapM_isOk.mpr hdecodes)
    obtain ⟨done, rest, hsplit, hdone, hrest⟩ := @cycleOver_of_decoded ⟨useCase 3, 100, 300⟩
      quietCycle [document] none (World.fresh rules) .empty orders horders
    exact (handsOver_iff_of_decoded hwf horders hsplit hdone).mpr (hrest.mpr rfl)

end Sample

end RulesEnrichment
