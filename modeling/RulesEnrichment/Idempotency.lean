import RulesEnrichment.Records
import RulesEnrichment.Failures

/-! # Idempotent processing

    A recorded success stores the hash of what was decided. The stored hash
    of an order changes only with the next recorded success of that order
    (`find?_processed_run`), so a call that comes to the same hash in the
    meantime finds it and is skipped (`duplicate_skipped`). -/

namespace RulesEnrichment

open StepMachine UnitOfWork KeyedTable

namespace Processing

/-- The call returns, and not because it was a duplicate: it has recorded a
    success. -/
def RecordsSuccess (uc : ProcessOrderUseCase) (c : ProcessCall) (w : World) : Prop :=
  (c.execute uc w).1 = .ok (true, c.correlationId, false)

/-- A recorded success stores its hash. -/
theorem find?_processed_of_success {uc : ProcessOrderUseCase} {c : ProcessCall} {w : World}
    {d : EnrichmentDecision} {hash : String} (hdec : c.Decides uc d hash)
    (hsucc : RecordsSuccess uc c w) :
    ∃ p, (c.execute uc w).2.db.processedOrders.find? c.order.orderId = some p ∧
      p.enrichmentHash = hash := by
  have hstored : ∀ r db, Recorded r w.db db → r.success = true → r.orderId = c.order.orderId →
      r.enrichmentHash = hash → ∃ p, db.processedOrders.find? c.order.orderId = some p ∧
        p.enrichmentHash = hash := by
    intro r db hrec hs ho hh
    refine ⟨r.processed, ?_, hh⟩
    rw [hrec.processedOrders, hs, if_pos rfl, ← ho]
    exact Table.find?_upsert_self _ r.processed
  have hstep := c.execute_step uc w
  -- only two ways through the call end in this result
  rw [hsucc] at hstep
  generalize (c.execute uc w).2 = w' at hstep ⊢
  cases hstep with
  | noMatch d' hash' db hdec' hdup hmatch hrec hfault =>
    obtain ⟨_, rfl⟩ := hdec.unique hdec'
    exact hstored _ db hrec rfl rfl rfl
  | submits d' hash' hsub hstep =>
    obtain ⟨_, rfl⟩ := hdec.unique hsub.toDecides
    cases hstep with
    | succeeded db hanswer hrec hfault => exact hstored _ db hrec rfl rfl rfl

/-- A call that records no success of an order leaves its hash alone. -/
theorem find?_processed_process {uc : ProcessOrderUseCase} {c : ProcessCall} {w : World}
    {orderId : String} (h : c.order.orderId = orderId → ¬ RecordsSuccess uc c w) :
    (c.execute uc w).2.db.processedOrders.find? orderId = w.db.processedOrders.find? orderId := by
  -- a success is one of another order, a failure does not touch the table
  have hsucc : ∀ r db, Recorded r w.db db → r.orderId = c.order.orderId →
      (c.execute uc w).1 = .ok (true, c.correlationId, false) →
      db.processedOrders.find? orderId = w.db.processedOrders.find? orderId := by
    intro r db hrec ho hres
    have hne : orderId ≠ r.processed.orderId := by
      intro heq
      have hr : r.processed.orderId = r.orderId := rfl
      have hown : c.order.orderId = orderId := by rw [← ho, ← hr, ← heq]
      exact h hown hres
    rw [hrec.processedOrders]
    split
    · exact Table.find?_upsert_ne _ r.processed hne
    · rfl
  have hfail : ∀ r db, Recorded r w.db db → r.success = false →
      db.processedOrders.find? orderId = w.db.processedOrders.find? orderId := by
    intro r db hrec hs
    rw [hrec.processedOrders, hs]
    rfl
  have hstep := c.execute_step uc w
  generalize hres : (c.execute uc w).1 = res at hstep
  generalize (c.execute uc w).2 = w' at hstep ⊢
  cases hstep with
  | evaluationError e hraise => rfl
  | duplicate d hash hdec hdup => rfl
  | noMatch d hash db hdec hdup hmatch hrec hfault => exact hsucc _ db hrec rfl hres
  | noMatchRefused d hash e hdec hdup hmatch hrefused => rfl
  | submits d hash hsub hstep =>
    cases hstep with
    | succeeded db hanswer hrec hfault => exact hsucc _ db hrec rfl hres
    | failureRefused accepted exc e htry hrefused => rfl
    | failed accepted exc db htry hrec hfault hlimit => exact hfail _ db hrec rfl
    | deadLetterRefused accepted exc e db htry hrec hfault hlimit hrefused =>
      exact hfail _ db hrec rfl
    | deadLettered accepted exc db db' htry hrec hfault hlimit hdead hjson =>
      show db'.processedOrders.find? orderId = _
      rw [hdead.processedOrders]
      exact hfail _ db hrec rfl

/-- No call of the run records a success of the order. -/
def NoSuccessOf (uc : ProcessOrderUseCase) (orderId : String) (w : World) (is : List Input) : Prop :=
  ∀ p ∈ (machine uc).visits w is, ∀ c, p.2 = .process c → c.order.orderId = orderId →
    ¬ RecordsSuccess uc c p.1

/-- Along a run without a success of the order, its stored hash stays. -/
theorem find?_processed_run {uc : ProcessOrderUseCase} {orderId : String} {w : World}
    {is : List Input} (h : NoSuccessOf uc orderId w is) :
    ((machine uc).run w is).db.processedOrders.find? orderId =
      w.db.processedOrders.find? orderId := by
  -- step by step; `h` covers the state in which each input is consumed
  induction is generalizing w with
  | nil => rfl
  | cons i is ih =>
    have hrest : NoSuccessOf uc orderId (step uc w i) is :=
      fun p hp => h p (List.mem_cons_of_mem _ hp)
    have hhead : (step uc w i).db.processedOrders.find? orderId =
        w.db.processedOrders.find? orderId := by
      cases i with
      | process c => exact find?_processed_process (h (w, .process c) List.mem_cons_self c rfl)
      | publish c =>
        show (publishOutbox c w).2.db.processedOrders.find? orderId = _
        rw [publishOutbox_frame]
    exact (ih hrest).trans hhead

/-- A call that comes to the stored hash does nothing but take an id. -/
theorem execute_of_stored_hash {uc : ProcessOrderUseCase} {c : ProcessCall} {w : World}
    {d : EnrichmentDecision} {hash : String} (hdec : c.Decides uc d hash) {p : ProcessedOrder}
    (hp : w.db.processedOrders.find? c.order.orderId = some p) (hhash : p.enrichmentHash = hash) :
    c.execute uc w = (.ok (true, c.correlationId, true), w.issue c.correlationId) := by
  have hdup : c.isDuplicate w hash = true := ProcessCall.isDuplicate_iff.mpr ⟨p, hp, hhash⟩
  unfold ProcessCall.execute
  simp only [hdec.evaluated, hdec.hashed, World.db_issue, ProcessCall.getByOrderId_enter, hdup,
    if_true]

/-- **Idempotency.** Let `c₁` record a success of an order, and let no call
    after it do so. Then a call for the order with the same `updated_at`
    and the same enriched fields is a duplicate: it submits nothing and
    writes nothing. -/
theorem duplicate_skipped (uc : ProcessOrderUseCase) (w₀ : World) (before between : List Input)
    (c₁ c₂ : ProcessCall) {d₁ d₂ : EnrichmentDecision}
    (hsucc : RecordsSuccess uc c₁ ((machine uc).run w₀ before))
    (hlatest : NoSuccessOf uc c₁.order.orderId
      ((machine uc).run w₀ (before ++ [.process c₁])) between)
    (hid : c₂.order.orderId = c₁.order.orderId)
    (hts : c₂.order.updatedAt.isoformat = c₁.order.updatedAt.isoformat)
    (heval₁ : evaluate uc.runtime c₁.order c₁.rules c₁.now = .ok d₁)
    (heval₂ : evaluate uc.runtime c₂.order c₂.rules c₂.now = .ok d₂)
    (hfields : d₂.enrichedFields.same d₁.enrichedFields = true) :
    let w := (machine uc).run w₀ (before ++ .process c₁ :: between)
    (c₂.execute uc w).1 = .ok (true, c₂.correlationId, true) ∧
      (c₂.execute uc w).2.submissions = w.submissions ∧ (c₂.execute uc w).2.db = w.db := by
  intro w
  obtain ⟨hash, hhash₁⟩ := computeHash_ok uc.runtime c₁.order d₁.enrichedFields
  have hhash₂ : computeHash uc.runtime c₂.order d₂.enrichedFields = .ok hash := by
    rw [computeHash_eq_of_same uc.runtime hid hts hfields]
    exact hhash₁
  -- the hash that `c₁` stored is still there
  obtain ⟨p, hp, hstored⟩ := find?_processed_of_success ⟨heval₁, hhash₁⟩ hsucc
  have hafter : (machine uc).run w₀ (before ++ [.process c₁]) =
      (c₁.execute uc ((machine uc).run w₀ before)).2 := by
    rw [Machine.run_append]
    rfl
  have hw : w = (machine uc).run ((machine uc).run w₀ (before ++ [.process c₁])) between := by
    rw [← Machine.run_append, List.append_assoc, List.singleton_append]
  have hfind : w.db.processedOrders.find? c₂.order.orderId = some p := by
    rw [hw, hid, find?_processed_run hlatest, hafter]
    exact hp
  rw [execute_of_stored_hash ⟨heval₂, hhash₂⟩ hfind hstored]
  exact ⟨rfl, rfl, rfl⟩

/-- The order is polled again after a failed call for another one. -/
theorem duplicate_skipped_sample :
    let c := Sample.call Sample.accept
    let other : ProcessCall := { Sample.call Sample.refuse with
      order := Sample.order "ORD-2" Sample.ten, correlationId := "second" }
    let w := (machine (Sample.useCase 3)).run (World.fresh Sample.rules)
      ([] ++ .process c :: [.process other])
    (c.execute (Sample.useCase 3) w).1 = .ok (true, c.correlationId, true) ∧
      (c.execute (Sample.useCase 3) w).2.submissions = w.submissions ∧
      (c.execute (Sample.useCase 3) w).2.db = w.db := by
  refine duplicate_skipped (Sample.useCase 3) (World.fresh Sample.rules) [] _ _ _ rfl ?_ rfl rfl
    rfl rfl rfl
  intro p hp c hc ho
  rw [List.mem_singleton.mp hp] at hc
  cases hc
  exact absurd ho (by decide)

end Processing

end RulesEnrichment
