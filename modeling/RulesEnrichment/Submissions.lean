import RulesEnrichment.HashContent
import RulesEnrichment.Records

/-! # What was really submitted

    Two places where the store speaks for the external system.

    * The event `OrderEnrichmentSucceeded`. It is written for every result
      that is recorded as a success, an order that no rule matches
      included; all the others follow an accepted submission
      (`success_events_accepted`).
    * The hash that makes a call skip its order. It covers the enriched
      fields and no other part of the payload, so a skip means that the
      last accepted submission carried these fields (`duplicate_justified`). -/

namespace RulesEnrichment

open StepMachine UnitOfWork KeyedTable Python

/-- A member of a JSON object. -/
def memberOf (k : String) : PyVal → Option PyVal
  | .dict es => es.lookup k
  | _ => none

/-! ## Success events -/

/-- The external system accepted a submission of the order under this
    correlation id. -/
def AcceptedFor (w : World) (id orderId : String) : Prop :=
  ∃ s ∈ w.submissions, s.accepted = true ∧ s.correlationId = id ∧ s.orderId = orderId

/-- The event says that no rule matched. -/
def IsNoMatchEvent (m : OutboxMessage) : Prop :=
  memberOf "event" m.payloadJson = some (.str "NoRulesMatched")

/-- Every success event is one of an accepted submission, or says that no
    rule matched. -/
def SuccessAccepted (w : World) : Prop :=
  ∀ m ∈ w.db.outbox.rows, m.eventType = .OrderEnrichmentSucceeded → ¬ IsNoMatchEvent m →
    ∃ id, m.messageId = messageIdOf id m.aggregateId ∧ AcceptedFor w id m.aggregateId

namespace SuccessAccepted

/-- Submissions are only added, and every new message is no success event,
    says that no rule matched, or follows an accepted submission. -/
theorem extend {w w' : World} (h : SuccessAccepted w)
    (hsub : ∀ s ∈ w.submissions, s ∈ w'.submissions)
    (hrows : ∀ m ∈ w'.db.outbox.rows, m ∈ w.db.outbox.rows ∨
      m.eventType ≠ .OrderEnrichmentSucceeded ∨ IsNoMatchEvent m ∨
        ∃ id, m.messageId = messageIdOf id m.aggregateId ∧ AcceptedFor w' id m.aggregateId) :
    SuccessAccepted w' := by
  intro m hm htype hevent
  rcases hrows m hm with hold | hother | hno | hacc
  · obtain ⟨id, hid, s, hs, hfacts⟩ := h m hold htype hevent
    exact ⟨id, hid, s, hsub s hs, hfacts⟩
  · exact absurd htype hother
  · exact absurd hno hevent
  · exact hacc

theorem preserve_process (uc : ProcessOrderUseCase) (c : ProcessCall) {w : World}
    (h : SuccessAccepted w) : SuccessAccepted (c.execute uc w).2 := by
  have hstep := c.execute_step uc w
  generalize (c.execute uc w).1 = res, (c.execute uc w).2 = w' at hstep ⊢
  -- a failure writes one event, of another type
  have hfailed : ∀ r db, r.success = false → Recorded r w.db db →
      ∀ m ∈ db.outbox.rows, m ∈ w.db.outbox.rows ∨ m.eventType ≠ .OrderEnrichmentSucceeded := by
    intro r db hs hrec m hm
    rcases hrec.mem_outbox.mp hm with hm | rfl
    · exact Or.inl hm
    · right
      simp [ResultRecord.message, hs]
  have hkept : ∀ d accepted, ∀ s ∈ w.submissions, s ∈ (c.submitted uc w d accepted).submissions :=
    fun _ _ _ hs => List.mem_append_left _ hs
  cases hstep with
  | evaluationError e hraise => exact h.extend (fun _ hs => hs) fun m hm => Or.inl hm
  | duplicate d hash hdec hdup => exact h.extend (fun _ hs => hs) fun m hm => Or.inl hm
  | noMatchRefused d hash e hdec hdup hmatch hrefused =>
    exact h.extend (fun _ hs => hs) fun m hm => Or.inl hm
  | noMatch d hash db hdec hdup hmatch hrec hfault =>
    refine h.extend (fun _ hs => hs) fun m hm => ?_
    rcases hrec.mem_outbox.mp hm with hm | rfl
    · exact Or.inl hm
    · exact Or.inr (Or.inr (Or.inl rfl))
  | submits d hash hsub hstep =>
    cases hstep with
    | succeeded db hanswer hrec hfault =>
      refine h.extend (hkept d true) fun m hm => ?_
      rcases hrec.mem_outbox.mp hm with hm | rfl
      · exact Or.inl hm
      · -- this call's own submission is the last one
        have hlast : (⟨c.order.orderId, c.payload uc d, c.correlationId, true⟩ : Submission) ∈
            (c.submitted uc w d true).submissions :=
          List.mem_append_right _ (List.mem_singleton.mpr rfl)
        exact Or.inr (Or.inr (Or.inr ⟨c.correlationId, rfl, _, hlast, rfl, rfl, rfl⟩))
    | failureRefused accepted exc e htry hrefused =>
      exact h.extend (hkept d accepted) fun m hm => Or.inl hm
    | failed accepted exc db htry hrec hfault hlimit =>
      refine h.extend (hkept d accepted) fun m hm => ?_
      exact (hfailed _ db rfl hrec m hm).imp_right Or.inl
    | deadLetterRefused accepted exc e db htry hrec hfault hlimit hrefused =>
      refine h.extend (hkept d accepted) fun m hm => ?_
      exact (hfailed _ db rfl hrec m hm).imp_right Or.inl
    | deadLettered accepted exc db db' htry hrec hfault hlimit hdead hjson =>
      refine h.extend (hkept d accepted) fun m hm => ?_
      rcases hdead.mem_outbox.mp hm with hm | rfl
      · exact (hfailed _ db rfl hrec m hm).imp_right Or.inl
      · have htype : c.deadLetterRecord.message.eventType = .OrderMovedToDeadLetter := rfl
        right; left
        rw [htype]
        decide

theorem preserve_publish (c : PublishCall) {w : World} (h : SuccessAccepted w) :
    SuccessAccepted (publishOutbox c w).2 := by
  rcases publishOutbox_cases c w with ⟨e, _, hres⟩ | ⟨db, _, hpub, hres⟩
  · rw [hres]
    exact h
  · rw [hres]
    intro m' hm' htype hevent
    have hm' : m' ∈ db.outbox.rows := hm'
    rw [hpub.outbox] at hm'
    obtain ⟨m, hm, rfl⟩ := List.mem_map.mp hm'
    -- settling a message changes neither its ids, its type nor its payload
    by_cases ht : c.takes w.db m.messageId = true
    · simp only [ht, if_true, IsNoMatchEvent, PublishCall.eventType_settle,
        PublishCall.payloadJson_settle, PublishCall.messageId_settle,
        PublishCall.aggregateId_settle] at htype hevent ⊢
      exact h m hm htype hevent
    · rw [if_neg ht] at htype hevent ⊢
      exact h m hm htype hevent

end SuccessAccepted

/-- **Success events.** In every reachable state, a success event with the
    correlation id `id` follows an accepted submission of its order under
    `id`, unless it says that no rule matched. -/
theorem success_events_accepted (uc : ProcessOrderUseCase) {w : World}
    (hw : (Processing.machine uc).Reachable w) {m : OutboxMessage} (hm : m ∈ w.db.outbox.rows)
    (htype : m.eventType = .OrderEnrichmentSucceeded) (hevent : ¬ IsNoMatchEvent m) {id : String}
    (hid : m.messageId = messageIdOf id m.aggregateId) : AcceptedFor w id m.aggregateId := by
  have hinv : SuccessAccepted w := by
    refine Machine.reachable_induction _ (I := SuccessAccepted) ?_ ?_ hw
    · intro w₀ hinit
      obtain ⟨rules, rfl⟩ := hinit
      intro m hm
      cases hm
    · intro w i h _
      cases i with
      | process c => exact h.preserve_process uc c
      | publish c => exact h.preserve_publish c
  obtain ⟨id', hid', hacc⟩ := hinv m hm htype hevent
  -- the message id determines the correlation id
  have heq : id = id' := messageIdOf_cancel (hid.symm.trans hid')
  rw [heq]
  exact hacc

theorem success_events_accepted_sample :
    let w := (Processing.machine (Sample.useCase 3)).run (World.fresh Sample.rules)
      [.process (Sample.call Sample.accept)]
    ∃ m ∈ w.db.outbox.rows, m.eventType = .OrderEnrichmentSucceeded ∧
      AcceptedFor w Sample.correlationId m.aggregateId := by
  intro w
  have hreach : (Processing.machine (Sample.useCase 3)).Reachable w := by
    refine ⟨World.fresh Sample.rules, [.process (Sample.call Sample.accept)], ⟨_, rfl⟩, ?_, rfl⟩
    intro p hp
    rw [List.mem_singleton.mp hp]
    exact ⟨by decide, by decide⟩
  have hevent : w.db.outbox.rows.head?.map (fun m => (m.eventType, m.messageId, m.aggregateId,
      (memberOf "event" m.payloadJson).map PyVal.dumps)) =
        some (.OrderEnrichmentSucceeded, messageIdOf Sample.correlationId "ORD-1", "ORD-1",
          some (.ok "\"OrderEnrichmentSucceeded\"")) := by rfl
  obtain ⟨m, hm, hfacts⟩ := Option.map_eq_some_iff.mp hevent
  simp only [Prod.mk.injEq] at hfacts
  obtain ⟨htype, hid, horder, hpayload⟩ := hfacts
  have hno : ¬ IsNoMatchEvent m := by
    intro h
    unfold IsNoMatchEvent at h
    rw [h] at hpayload
    revert hpayload
    decide
  have hin := List.mem_of_mem_head? hm
  refine ⟨m, hin, htype, success_events_accepted (Sample.useCase 3) hreach hin htype hno ?_⟩
  rw [hid, horder]

/-! ### A success without a submission

    No rule is given to the call, and its order is recorded as a success. -/

def noRulesCall : ProcessCall := { Sample.call Sample.accept with rules := [] }

theorem no_match_event_without_submission :
    let w := (Processing.machine (Sample.useCase 3)).run (World.fresh Sample.rules)
      [.process noRulesCall]
    (Processing.machine (Sample.useCase 3)).Reachable w ∧
    ∃ m ∈ w.db.outbox.rows, m.eventType = .OrderEnrichmentSucceeded ∧
      m.messageId = messageIdOf Sample.correlationId m.aggregateId ∧
      ¬ AcceptedFor w Sample.correlationId m.aggregateId := by
  intro w
  refine ⟨⟨World.fresh Sample.rules, [.process noRulesCall], ⟨_, rfl⟩, ?_, rfl⟩,
    _, List.mem_singleton.mpr rfl, rfl, rfl, ?_⟩
  · intro p hp
    rw [List.mem_singleton.mp hp]
    exact ⟨by decide, by decide⟩
  · intro h
    obtain ⟨s, hs, _⟩ := h
    -- nothing was submitted
    cases hs

/-! ## Skipped duplicates -/

/-- A call of `execute` and the configuration it runs under. -/
structure ConfiguredCall where
  uc : ProcessOrderUseCase
  call : ProcessCall

namespace ConfiguredCall

/-- A call without database faults, under a new id. The configuration may
    differ from call to call, the Python runtime does not. -/
structure Undisturbed (rt : Runtime) (w : World) (i : ConfiguredCall) : Prop where
  runtime : i.uc.runtime = rt
  noFaults : i.call.faults = {}
  uuid : isUuid i.call.correlationId = true
  freshId : i.call.correlationId ∉ w.issued

def machine (rt : Runtime) : Machine World ConfiguredCall where
  init w := ∃ rules, w = World.fresh rules
  guard := Undisturbed rt
  step w i := (i.call.execute i.uc w).2

/-- The last submission of an order that the external system accepted. -/
def lastAccepted (w : World) (orderId : String) : Option Submission :=
  (w.submissions.filter fun s => s.accepted && s.orderId = orderId).getLast?

theorem lastAccepted_snoc {w w' : World} {s : Submission} {orderId : String}
    (h : w'.submissions = w.submissions ++ [s]) :
    lastAccepted w' orderId =
      if s.accepted && s.orderId = orderId then some s else lastAccepted w orderId := by
  unfold lastAccepted
  rw [h, List.filter_append]
  by_cases hs : (s.accepted && decide (s.orderId = orderId)) = true
  · have hone : [s].filter (fun s => s.accepted && decide (s.orderId = orderId)) = [s] :=
      List.filter_cons_of_pos hs
    rw [hone, if_pos hs, List.getLast?_concat]
  · have hnone : [s].filter (fun s => s.accepted && decide (s.orderId = orderId)) = [] :=
      List.filter_cons_of_neg hs
    rw [hnone, if_neg hs, List.append_nil]

/-- The stored hash is that of the fields the last accepted submission
    carried, or of no fields at all. -/
def JustifiedBy (rt : Runtime) (w : World) (p : ProcessedOrder) : Prop :=
  ∃ (o : ExternalOrder) (fields : JsonObject), o.orderId = p.orderId ∧
    computeHash rt o fields = .ok p.enrichmentHash ∧
    (fields.entries = [] ∨ ∃ s, lastAccepted w p.orderId = some s ∧
      memberOf "enriched_fields" s.payload = some fields.toVal)

/-- The invariant: the ids are those the generator handed out, and every
    stored hash is justified. -/
structure Justified (rt : Runtime) (w : World) : Prop where
  ids : IdsIssued w
  hashes : ∀ p ∈ w.db.processedOrders.rows, JustifiedBy rt w p

/-- A decision without matches enriches nothing. -/
theorem entries_of_noMatch {uc : ProcessOrderUseCase} {c : ProcessCall} {d : EnrichmentDecision}
    (heval : evaluate uc.runtime c.order c.rules c.now = .ok d) (hmatch : d.hasMatches = false) :
    d.enrichedFields.entries = [] := by
  obtain ⟨_, rfl⟩ := evaluate_eq_ok_iff.mp heval
  have hnil : matchingRules uc.runtime c.order c.now c.rules = [] := by
    simpa [EnrichmentDecision.hasMatches, decisionOf] using hmatch
  unfold decisionOf
  rw [hnil]
  rfl

/-- A row stays justified as long as the last accepted submission of its
    order stays. -/
theorem JustifiedBy.congr {rt : Runtime} {w w' : World} {p : ProcessedOrder}
    (h : JustifiedBy rt w p) (hlast : lastAccepted w' p.orderId = lastAccepted w p.orderId) :
    JustifiedBy rt w' p := by
  obtain ⟨o, fields, hid, hhash, hor⟩ := h
  refine ⟨o, fields, hid, hhash, ?_⟩
  rw [hlast]
  exact hor

/-- A submission that was refused is not the last accepted one. -/
theorem lastAccepted_refused (uc : ProcessOrderUseCase) (c : ProcessCall) (w : World)
    (d : EnrichmentDecision) (orderId : String) :
    lastAccepted (c.submitted uc w d false) orderId = lastAccepted w orderId := by
  have hsubs : (c.submitted uc w d false).submissions =
      w.submissions ++ [⟨c.order.orderId, c.payload uc d, c.correlationId, false⟩] := rfl
  simpa using lastAccepted_snoc hsubs

/-- A submission that was accepted is the last one of its order. -/
theorem lastAccepted_accepted (uc : ProcessOrderUseCase) (c : ProcessCall) (w : World)
    (d : EnrichmentDecision) (db : Database) (orderId : String) :
    lastAccepted { c.submitted uc w d true with db := db } orderId =
      if c.order.orderId = orderId then
        some ⟨c.order.orderId, c.payload uc d, c.correlationId, true⟩
      else lastAccepted w orderId := by
  have hsubs : ({ c.submitted uc w d true with db := db } : World).submissions =
      w.submissions ++ [⟨c.order.orderId, c.payload uc d, c.correlationId, true⟩] := rfl
  simpa using lastAccepted_snoc hsubs

section recorded

variable {rt : Runtime} {w w' : World} {r : ResultRecord} {db : Database}

/-- A success justifies its own row and leaves the others as they were. -/
theorem justified_success (h : ∀ p ∈ w.db.processedOrders.rows, JustifiedBy rt w p)
    (hrec : Recorded r w.db db) (hs : r.success = true)
    (hothers : ∀ o, o ≠ r.orderId → lastAccepted w' o = lastAccepted w o)
    (hr : JustifiedBy rt w' r.processed) :
    ∀ p ∈ db.processedOrders.rows, JustifiedBy rt w' p := by
  intro p hp
  rw [hrec.processedOrders, hs, if_pos rfl, Table.mem_upsert] at hp
  rcases hp with rfl | ⟨hp, hne⟩
  · exact hr
  · exact (h p hp).congr (hothers _ hne)

/-- A failure writes no row. -/
theorem justified_failure (h : ∀ p ∈ w.db.processedOrders.rows, JustifiedBy rt w p)
    (hrec : Recorded r w.db db) (hs : r.success = false)
    (hlast : ∀ o, lastAccepted w' o = lastAccepted w o) :
    ∀ p ∈ db.processedOrders.rows, JustifiedBy rt w' p := by
  intro p hp
  rw [hrec.processedOrders, hs] at hp
  exact (h p hp).congr (hlast _)

end recorded

theorem Justified.preserve {rt : Runtime} {w : World} {i : ConfiguredCall} (h : Justified rt w)
    (hi : Undisturbed rt w i) : Justified rt ((machine rt).step w i) := by
  obtain ⟨uc, c⟩ := i
  obtain ⟨hrt, hfaults, huuid, hnew⟩ := hi
  have hfree := h.ids.messageId_free huuid hnew c.order.orderId
  have hsuccess : c.faults.success = none := by rw [hfaults]
  have hfailure : c.faults.failure = none := by rw [hfaults]
  refine ⟨h.ids.preserve_process huuid, ?_⟩
  show ∀ p ∈ (c.execute uc w).2.db.processedOrders.rows, JustifiedBy rt (c.execute uc w).2 p
  have hstep := c.execute_step uc w
  generalize (c.execute uc w).1 = res, (c.execute uc w).2 = w' at hstep ⊢
  cases hstep with
  | evaluationError e hraise => exact fun p hp => (h.hashes p hp).congr rfl
  | duplicate d hash hdec hdup => exact fun p hp => (h.hashes p hp).congr rfl
  | noMatchRefused d hash e hdec hdup hmatch hrefused =>
    exact fun p hp => (h.hashes p hp).congr rfl
  | noMatch d hash db hdec hdup hmatch hrec _ =>
    refine justified_success h.hashes hrec rfl (fun _ _ => rfl) ?_
    have hhash := hdec.hashed
    rw [hrt] at hhash
    exact ⟨c.order, d.enrichedFields, rfl, hhash, Or.inl (entries_of_noMatch hdec.evaluated hmatch)⟩
  | submits d hash hsub hstep =>
    cases hstep with
    | succeeded db hanswer hrec _ =>
      refine justified_success h.hashes hrec rfl ?_ ?_
      · intro o hne
        have hne' : c.order.orderId ≠ o := fun h => hne h.symm
        rw [lastAccepted_accepted, if_neg hne']
      · -- the fields are those of the submission just made
        have hhash := hsub.hashed
        rw [hrt] at hhash
        have hlast : lastAccepted { c.submitted uc w d true with db := db } c.order.orderId =
            some ⟨c.order.orderId, c.payload uc d, c.correlationId, true⟩ := by
          rw [lastAccepted_accepted, if_pos rfl]
        exact ⟨c.order, d.enrichedFields, rfl, hhash, Or.inr ⟨_, hlast, rfl⟩⟩
    | failureRefused accepted exc e htry hrefused =>
      exact absurd hrefused (ProcessCall.not_refused hfailure hfree)
    | failed accepted exc db htry hrec _ _ =>
      obtain ⟨_, rfl⟩ := htry.rejects hsuccess hfree
      exact justified_failure h.hashes hrec rfl (lastAccepted_refused uc c w d)
    | deadLetterRefused accepted exc e db htry hrec _ _ _ =>
      obtain ⟨_, rfl⟩ := htry.rejects hsuccess hfree
      exact justified_failure h.hashes hrec rfl (lastAccepted_refused uc c w d)
    | deadLettered accepted exc db db' htry hrec _ _ hdead _ =>
      obtain ⟨_, rfl⟩ := htry.rejects hsuccess hfree
      intro p hp
      rw [hdead.processedOrders] at hp
      exact justified_failure h.hashes hrec rfl (lastAccepted_refused uc c w d) p hp

theorem reachable_justified {rt : Runtime} {w : World} (hw : (machine rt).Reachable w) :
    Justified rt w := by
  refine Machine.reachable_induction _ (I := Justified rt) ?_ (fun _ _ h hi => h.preserve hi) hw
  intro w₀ hinit
  obtain ⟨rules, rfl⟩ := hinit
  refine ⟨IdsIssued.fresh rules, ?_⟩
  intro p hp
  cases hp

/-- **Skipped duplicates.** Where SHA-256 has no collisions, an order whose
    decision enriches at least one field is skipped only if the last
    submission accepted for it carried the same enriched fields, as
    canonical text. -/
theorem duplicate_justified {rt : Runtime} (hinj : Function.Injective rt.sha256) {w : World}
    (hw : (machine rt).Reachable w) {i : ConfiguredCall} (hi : Undisturbed rt w i)
    {d : EnrichmentDecision}
    (heval : evaluate i.uc.runtime i.call.order i.call.rules i.call.now = .ok d)
    (hfields : d.enrichedFields.entries ≠ []) {processed : Bool} {id : String}
    (hskip : (i.call.execute i.uc w).1 = .ok (processed, id, true)) :
    ∃ s, ∃ fields : JsonObject, lastAccepted w i.call.order.orderId = some s ∧
      memberOf "enriched_fields" s.payload = some fields.toVal ∧
      fields.toVal.dumps = d.enrichedFields.toVal.dumps := by
  have hjust := (reachable_justified hw).hashes
  have hstep := i.call.execute_step i.uc w
  rw [hskip] at hstep
  generalize (i.call.execute i.uc w).2 = w' at hstep
  -- only a duplicate is skipped
  cases hstep with
  | duplicate d' hash hdec hdup =>
    have hd : d' = d := Except.ok.inj (hdec.evaluated.symm.trans heval)
    subst hd
    obtain ⟨p, hfind, hhash⟩ := ProcessCall.isDuplicate_iff.mp hdup
    obtain ⟨hin, hkey⟩ := (Table.find?_eq_some_iff _ _ p).mp hfind
    obtain ⟨o, fields, hid, hstored, hor⟩ := hjust p hin
    have hnow := hdec.hashed
    rw [hi.runtime] at hnow
    rw [hhash] at hstored
    have horder : o.orderId = i.call.order.orderId := hid.trans hkey
    obtain ⟨_, htext⟩ := computeHash_inj hinj horder hstored hnow
    rcases hor with hnone | ⟨s, hlast, hpayload⟩
    · -- the hash of no fields is not the hash of these
      have hempty := (JsonObject.dumps_eq_empty_iff fields).mpr hnone
      rw [htext] at hempty
      exact absurd ((JsonObject.dumps_eq_empty_iff _).mp hempty) hfields
    · rw [hkey] at hlast
      exact ⟨s, fields, hlast, hpayload, htext⟩
  | submits d' hash hsub hstep => cases hstep

/-! ### A duplicate under another version

    The order is enriched under `enrichment_version` 1, then it is polled
    again under version 2. -/

/-- What is hashed for the order in both calls, and its SHA-256. -/
def laneText : String :=
  "\x7b\"enriched_fields\":\x7b\"destination_lane\":\"ES01\"\x7d," ++
    "\"order_id\":\"ORD-1\",\"order_updated_at\":\"2026-03-01T09:00:00+00:00\"\x7d"

def laneDigest : String := "3826335f23da7333ee6c691c08f4a6f9a12c72102a9089c0e6988993efa1d809"

def laneRuntime : Runtime := Sample.hashing [(laneText, laneDigest)]

def versioned (enrichmentVersion : Nat) : ProcessOrderUseCase :=
  { Sample.useCase 3 with runtime := laneRuntime, enrichmentVersion := enrichmentVersion }

def firstCall : ConfiguredCall := ⟨versioned 1, Sample.call Sample.accept⟩

def secondCall : ConfiguredCall :=
  ⟨versioned 2, { Sample.call Sample.accept with now := Sample.eleven, correlationId := Sample.secondId }⟩

theorem undisturbed_sample :
    (machine laneRuntime).Legal (World.fresh Sample.rules) [firstCall] ∧
      Undisturbed laneRuntime
        ((machine laneRuntime).run (World.fresh Sample.rules) [firstCall]) secondCall := by
  constructor
  · intro p hp
    rw [List.mem_singleton.mp hp]
    exact ⟨rfl, rfl, by decide, by decide⟩
  · refine ⟨rfl, rfl, by decide, ?_⟩
    have hissued : ((machine laneRuntime).run (World.fresh Sample.rules) [firstCall]).issued =
        [Sample.correlationId] := by decide +kernel
    rw [hissued]
    decide

theorem secondCall_skipped :
    (secondCall.call.execute secondCall.uc
      ((machine laneRuntime).run (World.fresh Sample.rules) [firstCall])).1 =
        .ok (true, Sample.secondId, true) := by
  decide +kernel

theorem skipped_under_new_version :
    let w := (machine laneRuntime).run (World.fresh Sample.rules) [firstCall]
    (machine laneRuntime).Reachable w ∧ Undisturbed laneRuntime w secondCall ∧
    (secondCall.call.execute secondCall.uc w).1 = .ok (true, Sample.secondId, true) ∧
    ∃ d s, evaluate laneRuntime secondCall.call.order secondCall.call.rules
        secondCall.call.now = .ok d ∧ d.hasMatches = true ∧
      lastAccepted w secondCall.call.order.orderId = some s ∧
      memberOf "enrichment_version" s.payload = some (.int 1) ∧
      memberOf "enrichment_version" (secondCall.call.payload secondCall.uc d) = some (.int 2) :=
  ⟨⟨_, _, ⟨_, rfl⟩, undisturbed_sample.1, rfl⟩, undisturbed_sample.2, secondCall_skipped, _, _, rfl,
    rfl, rfl, rfl, rfl⟩

theorem duplicate_justified_sample :
    let w := (machine laneRuntime).run (World.fresh Sample.rules) [firstCall]
    ∃ d s, ∃ fields : JsonObject, evaluate laneRuntime secondCall.call.order
        secondCall.call.rules secondCall.call.now = .ok d ∧
      computeHash laneRuntime secondCall.call.order d.enrichedFields = .ok laneDigest ∧
      lastAccepted w secondCall.call.order.orderId = some s ∧
      memberOf "enriched_fields" s.payload = some fields.toVal ∧
      fields.toVal.dumps = d.enrichedFields.toVal.dumps := by
  intro w
  have hreach : (machine laneRuntime).Reachable w := ⟨_, _, ⟨_, rfl⟩, undisturbed_sample.1, rfl⟩
  have hinj : Function.Injective laneRuntime.sha256 :=
    Sample.hashing_injective (by decide) (by decide)
  obtain ⟨s, fields, hfacts⟩ := duplicate_justified hinj hreach undisturbed_sample.2
    (d := decisionOf secondCall.call.order secondCall.call.now Sample.rules.rows) rfl
    (List.cons_ne_nil _ _) secondCall_skipped
  exact ⟨_, s, fields, rfl, by decide +kernel, hfacts⟩

end ConfiguredCall

end RulesEnrichment
