import RulesEnrichment.Outbox
import RulesEnrichment.PublishCycle

/-! # What the status of an event tells

    The sink keeps what it accepted even if the call that delivered it
    rolls back, so the statuses and the deliveries do not change together.
    `Truthful` relates the table to the publish cycles that led to it, and
    `outbox_truthful` reads it off at the end of every run of enqueues and
    publish calls made one after another. -/

namespace RulesEnrichment

open StepMachine KeyedTable

/-- The messages that are stored as published. -/
def Database.published (db : Database) : List OutboxMessage :=
  db.outbox.rows.filter (·.status = .PUBLISHED)

/-- What the call returned is how much it published. -/
theorem CycleEffect.returned_eq {p : PublishCycle} {batch : List OutboxMessage}
    (h : CycleEffect p batch) :
    p.returned = (batch.filter fun m => (p.call.sink m).isOk).length := by
  unfold PublishCycle.returned
  rw [h.returned]

/-- A cycle adds what it published to what was published before. -/
theorem CycleEffect.length_published {p : PublishCycle} {batch : List OutboxMessage}
    (h : CycleEffect p batch) : p.after.db.published.length =
      p.world.db.published.length + (batch.filter fun m => (p.call.sink m).isOk).length := by
  let taken : OutboxMessage → Bool := fun m => decide (m.messageId ∈ batch.map (·.messageId))
  have hbatch : ∀ m ∈ batch, m ∈ p.world.db.outbox.rows := fun m hm => (mem_pending.mp (h.pending m hm)).1
  have hperm : (p.world.db.outbox.rows.filter taken).Perm batch :=
    h.taken_perm (p.world.db.outbox.nodup.of_map _) (fun _ hm => hm) hbatch
  have hpending : ∀ m ∈ batch, m.status = .PENDING := fun m hm => (mem_pending.mp (h.pending m hm)).2
  have htaken : ∀ m ∈ batch, m.messageId ∈ batch.map (·.messageId) :=
    fun m hm => List.mem_map.mpr ⟨m, hm, rfl⟩
  -- count the rows of the batch and the other rows apart, before and after
  unfold Database.published
  simp only [← List.countP_eq_length_filter]
  rw [h.rows, List.countP_map, List.countP_eq_countP_filter_add _ _ taken,
    List.countP_eq_countP_filter_add p.world.db.outbox.rows _ taken, hperm.countP_eq, hperm.countP_eq]
  have hbefore : batch.countP (fun m => decide (m.status = .PUBLISHED)) = 0 := by
    refine List.countP_eq_zero.mpr fun m hm => ?_
    simp [hpending m hm]
  have hafter : batch.countP ((fun m => decide (m.status = OutboxStatus.PUBLISHED)) ∘
      p.rowAfter batch) = batch.countP fun m => (p.call.sink m).isOk := by
    refine List.countP_congr fun m hm => ?_
    rw [Function.comp_apply, PublishCycle.rowAfter, if_pos (htaken m hm)]
    by_cases hok : (p.call.sink m).isOk = true <;> simp [hok]
  have hothers : (p.world.db.outbox.rows.filter fun m => !taken m).countP
        ((fun m => decide (m.status = OutboxStatus.PUBLISHED)) ∘ p.rowAfter batch) =
      (p.world.db.outbox.rows.filter fun m => !taken m).countP
        fun m => decide (m.status = .PUBLISHED) := by
    refine List.countP_congr fun m hm => ?_
    have hnot : m.messageId ∉ batch.map (·.messageId) := by
      simpa [taken] using (List.mem_filter.mp hm).2
    rw [Function.comp_apply, PublishCycle.rowAfter, if_neg hnot]
  omega

namespace Outbox

/-- The publish cycles among the steps of a run. -/
def cyclesOf (hist : List (World × Input)) : List PublishCycle :=
  hist.filterMap fun p =>
    match p.2 with
    | .publish c => some ⟨p.1, c⟩
    | _ => none

theorem cyclesOf_append (hist hist' : List (World × Input)) :
    cyclesOf (hist ++ hist') = cyclesOf hist ++ cyclesOf hist' :=
  List.filterMap_append

theorem mem_of_cyclesOf {hist : List (World × Input)} {p : PublishCycle} (h : p ∈ cyclesOf hist) :
    (p.world, .publish p.call) ∈ hist := by
  obtain ⟨⟨w, i⟩, hstep, hcycle⟩ := List.mem_filterMap.mp h
  cases i with
  | publish c =>
    cases hcycle
    exact hstep
  | persist => cases hcycle
  | moveToDeadLetter => cases hcycle

/-- The status of a row tells what the sink said in a cycle that committed. -/
structure Truthful (cycles : List PublishCycle) (db : Database) : Prop where
  published : ∀ m ∈ db.outbox.rows, m.status = .PUBLISHED →
    ∃ p ∈ cycles, p.committed = true ∧ ⟨m.messageId, true⟩ ∈ p.passed
  failed : ∀ m ∈ db.outbox.rows, m.status = .FAILED →
    ∃ p ∈ cycles, p.committed = true ∧ ⟨m.messageId, false⟩ ∈ p.passed
  publishedAt : ∀ m ∈ db.outbox.rows, m.publishedAt.isSome = true ↔ m.status = .PUBLISHED
  counted : (cycles.map (·.returned)).sum = db.published.length

namespace Truthful

variable {cycles : List PublishCycle} {db db' : Database}

theorem fresh (rules : Table EnrichmentRule EnrichmentRule.ruleId) :
    Truthful [] (Database.fresh rules) := by
  refine ⟨?_, ?_, ?_, rfl⟩ <;> exact fun m hm => absurd hm List.not_mem_nil

/-- The table of events is all that counts. -/
theorem of_rows (h : Truthful cycles db) (hrows : db'.outbox.rows = db.outbox.rows) :
    Truthful cycles db' := by
  obtain ⟨hpub, hfail, hat, hcount⟩ := h
  unfold Database.published at hcount
  rw [← hrows] at hpub hfail hat hcount
  exact ⟨hpub, hfail, hat, hcount⟩

/-- A pending event joins the table. -/
theorem enqueue (h : Truthful cycles db) {m : OutboxMessage}
    (hrows : db'.outbox.rows = db.outbox.rows ++ [m]) (hpending : m.status = .PENDING)
    (hat : m.publishedAt = none) : Truthful cycles db' := by
  have hmem : ∀ x, x ∈ db'.outbox.rows → x ∈ db.outbox.rows ∨ x = m := by
    intro x hx
    rw [hrows, List.mem_append, List.mem_singleton] at hx
    exact hx
  refine ⟨fun x hx hs => ?_, fun x hx hs => ?_, fun x hx => ?_, ?_⟩
  · rcases hmem x hx with hx | rfl
    · exact h.published x hx hs
    · simp [hpending] at hs
  · rcases hmem x hx with hx | rfl
    · exact h.failed x hx hs
    · simp [hpending] at hs
  · rcases hmem x hx with hx | rfl
    · exact h.publishedAt x hx
    · simp [hpending, hat]
  · rw [h.counted]
    unfold Database.published
    rw [hrows, List.filter_append]
    simp [hpending]

/-- A cycle that rolls back leaves no trace in the table. -/
theorem rollback (h : Truthful cycles db) {p : PublishCycle} (hreturned : p.returned = 0) :
    Truthful (cycles ++ [p]) db := by
  refine ⟨fun m hm hs => ?_, fun m hm hs => ?_, h.publishedAt, ?_⟩
  · obtain ⟨q, hq, hfacts⟩ := h.published m hm hs
    exact ⟨q, List.mem_append_left _ hq, hfacts⟩
  · obtain ⟨q, hq, hfacts⟩ := h.failed m hm hs
    exact ⟨q, List.mem_append_left _ hq, hfacts⟩
  · rw [List.map_append, List.sum_append, h.counted]
    simp [hreturned]

/-- A cycle that commits: what was settled is settled as the sink said. -/
theorem commit {p : PublishCycle} {batch : List OutboxMessage} (h : Truthful cycles p.world.db)
    (hcommitted : p.committed = true) (heff : CycleEffect p batch) :
    Truthful (cycles ++ [p]) p.after.db := by
  have hlast : p ∈ cycles ++ [p] := List.mem_append_right _ (List.mem_singleton.mpr rfl)
  -- a row of the batch is on the sink's log, and it was pending
  have hpassed : ∀ m ∈ p.world.db.outbox.rows, m.messageId ∈ batch.map (·.messageId) →
      ⟨m.messageId, (p.call.sink m).isOk⟩ ∈ p.passed ∧ m.status = .PENDING := by
    intro m hm hid
    have hin := (heff.mem_batch_iff hm).mp hid
    rw [heff.passed]
    exact ⟨List.mem_map.mpr ⟨m, hin, rfl⟩, (mem_pending.mp (heff.pending m hin)).2⟩
  have hafter : ∀ m' ∈ p.after.db.outbox.rows,
      m' ∈ p.world.db.outbox.rows ∨ ∃ m ∈ p.world.db.outbox.rows,
        m.messageId ∈ batch.map (·.messageId) ∧ m'.messageId = m.messageId ∧
        (((p.call.sink m).isOk = true ∧ m'.status = .PUBLISHED ∧ m'.publishedAt.isSome = true) ∨
          ((p.call.sink m).isOk = false ∧ m'.status = .FAILED ∧ m'.publishedAt = m.publishedAt)) := by
    intro m' hm'
    rw [heff.rows, List.mem_map] at hm'
    obtain ⟨m, hm, rfl⟩ := hm'
    by_cases hid : m.messageId ∈ batch.map (·.messageId)
    · right
      refine ⟨m, hm, hid, ?_⟩
      rw [PublishCycle.rowAfter, if_pos hid]
      by_cases hok : (p.call.sink m).isOk = true
      · rw [if_pos hok]
        exact ⟨rfl, Or.inl ⟨hok, rfl, rfl⟩⟩
      · rw [if_neg hok]
        exact ⟨rfl, Or.inr ⟨Bool.eq_false_iff.mpr hok, rfl, rfl⟩⟩
    · rw [PublishCycle.rowAfter, if_neg hid]
      exact Or.inl hm
  refine ⟨fun m' hm' hs => ?_, fun m' hm' hs => ?_, fun m' hm' => ?_, ?_⟩
  · rcases hafter m' hm' with hold | ⟨m, hm, hid, hsame, ⟨hok, _, _⟩ | ⟨_, hfailed, _⟩⟩
    · obtain ⟨q, hq, hfacts⟩ := h.published m' hold hs
      exact ⟨q, List.mem_append_left _ hq, hfacts⟩
    · have hlog := (hpassed m hm hid).1
      rw [hok, ← hsame] at hlog
      exact ⟨p, hlast, hcommitted, hlog⟩
    · simp [hs] at hfailed
  · rcases hafter m' hm' with hold | ⟨m, hm, hid, hsame, ⟨_, hpub, _⟩ | ⟨hno, _, _⟩⟩
    · obtain ⟨q, hq, hfacts⟩ := h.failed m' hold hs
      exact ⟨q, List.mem_append_left _ hq, hfacts⟩
    · simp [hs] at hpub
    · have hlog := (hpassed m hm hid).1
      rw [hno, ← hsame] at hlog
      exact ⟨p, hlast, hcommitted, hlog⟩
  · rcases hafter m' hm' with hold | ⟨m, hm, hid, _, ⟨_, hpub, hat⟩ | ⟨_, hfailed, hat⟩⟩
    · exact h.publishedAt m' hold
    · exact iff_of_true hat hpub
    · -- it was pending, so it had no time yet
      have hpending := (hpassed m hm hid).2
      have hnone := mt (h.publishedAt m hm).mp (by simp [hpending])
      exact iff_of_false (by rw [hat]; exact hnone) (by simp [hfailed])
  · rw [List.map_append, List.sum_append, h.counted, heff.length_published]
    simp [heff.returned_eq]

/-- Within one step. -/
theorem preserve {hist : List (World × Input)} {w : World} (i : Input)
    (h : Truthful (cyclesOf hist) w.db) :
    Truthful (cyclesOf (hist ++ [(w, i)])) (step w i).db := by
  have henqueue : (∀ c, i ≠ .publish c) → cyclesOf [(w, i)] = [] →
      Truthful (cyclesOf (hist ++ [(w, i)])) (step w i).db := by
    intro hi hnone
    rw [cyclesOf_append, hnone, List.append_nil]
    obtain ⟨_, hsame | ⟨m, hrows, hpending, hat⟩⟩ := enqueue_cases (w := w) hi
    · exact h.of_rows (by rw [hsame])
    · exact h.enqueue hrows hpending hat
  match i with
  | .persist fault r => exact henqueue (by simp) rfl
  | .moveToDeadLetter fault r => exact henqueue (by simp) rfl
  | .publish c =>
    rw [cyclesOf_append]
    show Truthful (cyclesOf hist ++ [⟨w, c⟩]) (PublishCycle.after ⟨w, c⟩).db
    rcases PublishCycle.rollback_or_effect ⟨w, c⟩ with ⟨_, hreturned, hdb⟩ | ⟨hcommitted, heff⟩
    · rw [hdb]
      exact h.rollback hreturned
    · exact h.commit hcommitted heff

end Truthful

/-! ## Never twice -/

/-- The event is in the table and waits no more. -/
def Settled (messageId : String) (w : World) : Prop :=
  ∃ m ∈ w.db.outbox.rows, m.messageId = messageId ∧ m.status ≠ .PENDING

/-- A batch holds no settled event. -/
theorem Settled.not_in_batch {messageId : String} {w : World} (h : Settled messageId w)
    (c : PublishCall) : ∀ m ∈ c.batch w.db, m.messageId ≠ messageId := by
  obtain ⟨m, hm, hid, hs⟩ := h
  intro x hx hxid
  have hrow := c.mem_batch hx
  have heq : x = m := Table.eq_of_key _ hrow.1 hm (by rw [hxid, hid])
  rw [← heq] at hs
  exact hs hrow.2

theorem Settled.preserve {messageId : String} {w : World} (h : Settled messageId w) (i : Input) :
    Settled messageId (step w i) := by
  have hkeep : ∀ w' : World, (∀ m ∈ w.db.outbox.rows, m ∈ w'.db.outbox.rows) →
      Settled messageId w' := by
    intro w' hsub
    obtain ⟨m, hm, hfacts⟩ := h
    exact ⟨m, hsub m hm, hfacts⟩
  have henqueue : (∀ c, i ≠ .publish c) → Settled messageId (step w i) := by
    intro hi
    obtain ⟨_, hsame | ⟨m, hrows, _⟩⟩ := enqueue_cases (w := w) hi
    · exact hkeep _ fun m hm => by rwa [hsame]
    · exact hkeep _ fun x hx => by rw [hrows]; exact List.mem_append_left _ hx
  match i with
  | .persist fault r => exact henqueue (by simp)
  | .moveToDeadLetter fault r => exact henqueue (by simp)
  | .publish c =>
    show Settled messageId (PublishCycle.after ⟨w, c⟩)
    rcases PublishCycle.rollback_or_effect ⟨w, c⟩ with ⟨_, _, hdb⟩ | ⟨_, heff⟩
    · exact hkeep _ fun m hm => by rwa [hdb]
    · -- the row is outside the batch, so it stays as it is
      have hout := h.not_in_batch c
      obtain ⟨m, hm, hid, hs⟩ := h
      refine ⟨m, ?_, hid, hs⟩
      have hnot : m.messageId ∉ (c.batch w.db).map (·.messageId) := by
        rw [heff.mem_batch_iff hm]
        exact fun hin => hout m hin hid
      rw [heff.rows]
      exact List.mem_map.mpr ⟨m, hm, if_neg hnot⟩

/-- **The outbox tells the truth.** In every run of enqueues and publish
    calls, from a fresh database: the status of each event, its time and
    the counts that the calls returned agree with what the sink said in the
    cycles that committed; and once an event is settled, no later cycle
    gives it to the sink. -/
theorem outbox_truthful (rules : Table EnrichmentRule EnrichmentRule.ruleId) (is : List Input) :
    Truthful (cyclesOf (machine.visits (World.fresh rules) is))
        (machine.run (World.fresh rules) is).db ∧
      ∀ is₁ is₂, is = is₁ ++ is₂ →
        ∀ m ∈ (machine.run (World.fresh rules) is₁).db.outbox.rows, m.status ≠ .PENDING →
          ∀ p ∈ cyclesOf (machine.visits (machine.run (World.fresh rules) is₁) is₂),
            ∀ d ∈ p.passed, d.messageId ≠ m.messageId := by
  constructor
  · have hstart : Truthful (cyclesOf []) (World.fresh rules).db := Truthful.fresh rules
    exact machine.history_induction (I := fun hist w => Truthful (cyclesOf hist) w.db)
      (fun hist w i h _ => h.preserve i) hstart (legal _ is)
  · intro is₁ is₂ _ m hm hs p hp d hd
    have hsettled : Settled m.messageId p.world :=
      machine.visits_of_invariant (I := Settled m.messageId) (fun w i h _ => h.preserve i)
        ⟨m, hm, rfl, hs⟩ (legal _ is₂) _ (mem_of_cyclesOf hp)
    rw [p.passed_eq] at hd
    obtain ⟨x, hx, rfl⟩ := List.mem_map.mp hd
    exact hsettled.not_in_batch p.call x hx

end Outbox

end RulesEnrichment
