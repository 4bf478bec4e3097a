import Mathlib.Order.Bounds.Basic
import RulesEnrichment.Cursor
import RulesEnrichment.Model.HttpClient
import RulesEnrichment.RoundTrip

/-! # What a poll asks for

    The cursor is all that a worker remembers of the orders it has seen, and
    the query of a poll is all that the external API learns of it.

    * `cursor_isLUB`: the cursor is the least upper bound of the timestamps
      that completed cycles have seen, the start of the first one included.
    * `poll_query`: the text in the query denotes that instant, and there is
      none before a cycle has completed. -/

namespace RulesEnrichment

open StepMachine Python

namespace PollingWorker

/-! ## What has been seen -/

/-- Whether the cycle completes; see `Completes`. -/
def completes (f : EnrichmentFacade) (v : Daemon × Cycle) : Bool :=
  (f.runOnce v.2 v.1.updatedSince v.1.world v.1.cache).1.isOk

/-- The timestamps that completed cycles have seen: those of their orders,
    and the clock at the start of the first one. -/
def timestamps (f : EnrichmentFacade) (hist : List (Daemon × Cycle)) : Set DateTime :=
  {t | (∃ v, hist.find? (completes f) = some v ∧ t = v.2.started) ∨
    ∃ v ∈ hist, completes f v = true ∧ ∃ orders, batch f v.1 v.2 = .ok orders ∧
      ∃ o ∈ orders, t = o.updatedAt}

/-- What bounds the timestamps that have been seen. -/
theorem mem_upperBounds_timestamps {f : EnrichmentFacade} {hist : List (Daemon × Cycle)}
    {t : DateTime} : t ∈ upperBounds (timestamps f hist) ↔
      (∀ v, hist.find? (completes f) = some v → v.2.started ≤ t) ∧
      ∀ v ∈ hist, completes f v = true → ∀ orders, batch f v.1 v.2 = .ok orders →
        ∀ o ∈ orders, o.updatedAt ≤ t := by
  constructor
  · intro h
    refine ⟨fun v hv => h (Or.inl ⟨v, hv, rfl⟩), ?_⟩
    intro v hv hdone orders hb o ho
    exact h (Or.inr ⟨v, hv, hdone, orders, hb, o, ho, rfl⟩)
  · intro h t' ht'
    obtain ⟨hfirst, hall⟩ := h
    rcases ht' with ⟨v, hv, rfl⟩ | ⟨v, hv, hdone, orders, hb, o, ho, rfl⟩
    · exact hfirst v hv
    · exact hall v hv hdone orders hb o ho

/-- The cursor and the history it sums up. -/
def SumsUp (f : EnrichmentFacade) (hist : List (Daemon × Cycle)) : Option DateTime → Prop
  | none => hist.find? (completes f) = none
  | some cursor => (∃ v, hist.find? (completes f) = some v) ∧ IsLUB (timestamps f hist) cursor

section step

variable {f : EnrichmentFacade} {hist : List (Daemon × Cycle)} {d : Daemon} {c : Cycle}

theorem find?_snoc_of_completes (hdone : completes f (d, c) = true) :
    (hist ++ [(d, c)]).find? (completes f) =
      some ((hist.find? (completes f)).getD (d, c)) := by
  rw [List.find?_append]
  cases hist.find? (completes f) with
  | none =>
    rw [List.find?_cons_of_pos hdone]
    rfl
  | some v => rfl

/-- A cycle that raises leaves no trace in the cursor. -/
theorem sumsUp_of_raises (hraise : completes f (d, c) = false) {cursor : Option DateTime}
    (h : SumsUp f hist cursor) : SumsUp f (hist ++ [(d, c)]) cursor := by
  have hfind : (hist ++ [(d, c)]).find? (completes f) = hist.find? (completes f) := by
    have hno : ¬ completes f (d, c) = true := by
      rw [hraise]
      exact Bool.false_ne_true
    rw [List.find?_append, List.find?_cons_of_neg hno]
    exact Option.or_none
  have hseen : timestamps f (hist ++ [(d, c)]) = timestamps f hist := by
    unfold timestamps
    rw [hfind]
    ext t
    refine or_congr_right ?_
    simp only [List.mem_append, List.mem_singleton]
    constructor
    · rintro ⟨v, hv | rfl, hdone, hrest⟩
      · exact ⟨v, hv, hdone, hrest⟩
      · rw [hraise] at hdone
        cases hdone
    · rintro ⟨v, hv, hrest⟩
      exact ⟨v, Or.inl hv, hrest⟩
  cases cursor with
  | none => exact hfind.trans h
  | some cursor =>
    unfold SumsUp at h ⊢
    rwa [hfind, hseen]

/-- A cycle that completes adds its orders to what the cursor sums up, and
    the first one its start. -/
theorem sumsUp_of_completes (hdone : completes f (d, c) = true)
    (h : SumsUp f hist d.updatedSince) {orders : List ExternalOrder}
    (hb : batch f d c = .ok orders) {cursor : DateTime}
    (hcursor : ∀ t, cursor ≤ t ↔ EnrichmentFacade.startCursor c d.updatedSince ≤ t ∧
      ∀ o ∈ orders, o.updatedAt ≤ t) : SumsUp f (hist ++ [(d, c)]) (some cursor) := by
  refine ⟨⟨_, find?_snoc_of_completes hdone⟩, ?_⟩
  rw [isLUB_iff_le_iff]
  intro t
  rw [hcursor, mem_upperBounds_timestamps, find?_snoc_of_completes hdone]
  simp only [Option.some.injEq, forall_eq', List.mem_append, List.mem_singleton]
  -- the bound on this batch is on both sides
  have hlast : (∀ orders', batch f d c = .ok orders' → ∀ o ∈ orders', o.updatedAt ≤ t) ↔
      ∀ o ∈ orders, o.updatedAt ≤ t := by
    rw [hb]
    simp
  have hstart : EnrichmentFacade.startCursor c d.updatedSince ≤ t ↔
      ((hist.find? (completes f)).getD (d, c)).2.started ≤ t ∧
        ∀ v ∈ hist, completes f v = true → ∀ orders, batch f v.1 v.2 = .ok orders →
          ∀ o ∈ orders, o.updatedAt ≤ t := by
    cases hs : d.updatedSince with
    | none =>
      rw [hs] at h
      have hnone : hist.find? (completes f) = none := h
      rw [hnone]
      refine ⟨fun hle => ⟨hle, ?_⟩, And.left⟩
      intro v hv hcomplete
      exact absurd hcomplete (List.find?_eq_none.mp hnone v hv)
    | some since =>
      rw [hs] at h
      obtain ⟨⟨v, hv⟩, hlub⟩ := h
      show since.asUtc ≤ t ↔ _
      rw [DateTime.asUtc_le_iff, isLUB_le_iff hlub, mem_upperBounds_timestamps, hv]
      simp
  rw [hstart]
  constructor
  · rintro ⟨⟨hfirst, hold⟩, hnew⟩
    refine ⟨hfirst, ?_⟩
    rintro v (hv | rfl) hcomplete
    · exact hold v hv hcomplete
    · exact hlast.mpr hnew
  · rintro ⟨hfirst, hall⟩
    exact ⟨⟨hfirst, fun v hv => hall v (Or.inl hv)⟩, hlast.mp (hall (d, c) (Or.inr rfl) hdone)⟩

end step

/-! ## Along every run -/

/-- The worker, cycle after cycle, whatever the external API does. -/
abbrev unrestricted (f : EnrichmentFacade) : Machine Daemon Cycle := machine f id fun _ _ => True

theorem sumsUp_run (f : EnrichmentFacade) {d : Daemon} (hinit : d.updatedSince = none)
    (cs : List Cycle) :
    SumsUp f ((unrestricted f).visits d cs) ((unrestricted f).run d cs).updatedSince := by
  show SumsUp f ([] ++ (unrestricted f).visits d cs) _
  refine (unrestricted f).history_induction (I := fun hist d => SumsUp f hist d.updatedSince)
    ?_ ?_ fun _ _ => trivial
  · intro hist d c h _
    show SumsUp f _ (runOnce f c d).2.updatedSince
    rcases cursor_cases f d c with ⟨hraise, hcursor⟩ | ⟨hdone, orders, cursor, hb, hcursor, hle⟩
    · rw [hcursor]
      exact sumsUp_of_raises (Bool.eq_false_iff.mpr hraise) h
    · rw [hcursor]
      exact sumsUp_of_completes hdone h hb hle
  · rw [hinit]
    rfl

/-- What has been seen stays seen. -/
theorem timestamps_subset (f : EnrichmentFacade) {hist hist' : List (Daemon × Cycle)}
    (hsome : ∃ v, hist.find? (completes f) = some v) :
    timestamps f hist ⊆ timestamps f (hist ++ hist') := by
  obtain ⟨v, hv⟩ := hsome
  rintro t (⟨v', hv', ht⟩ | ⟨v', hv', hrest⟩)
  · refine Or.inl ⟨v', ?_, ht⟩
    rw [List.find?_append, hv']
    rfl
  · exact Or.inr ⟨v', List.mem_append_left _ hv', hrest⟩

/-- **What a poll asks for.** After any cycles of a worker, completed or
    not, the query of its next poll has no `updated_since` as long as no
    cycle has completed. From then on its text is read back as the least
    upper bound of the timestamps of all orders that completed cycles have
    fetched and of the start of the first one. It never goes back. -/
theorem poll_query (f : EnrichmentFacade) (rt : Runtime) {d : Daemon}
    (hinit : d.updatedSince = none) (cs : List Cycle) :
    let query : List (String × PyVal) := [("status", .str "READY_FOR_ENRICHMENT"),
      ("limit", .int f.pollBatchSize), ("offset", .int 0)]
    let since (cs : List Cycle) := ((unrestricted f).run d cs).updatedSince
    let polled (cs : List Cycle) :=
      ManhattanSimulatorHttpClient.pollParams (since cs) f.pollBatchSize
    let seen := (unrestricted f).visits d cs
    (seen.find? (completes f) = none → polled cs = query) ∧
    ((∃ v, seen.find? (completes f) = some v) → ∃ text cursor,
      polled cs = query ++ [("updated_since", .str text)] ∧
      ManhattanSimulatorHttpClient.parseDatetime rt text = .ok cursor ∧
      IsLUB (timestamps f seen) cursor) ∧
    ∀ cs' cursor cursor', since cs = some cursor → since (cs ++ cs') = some cursor' →
      cursor ≤ cursor' := by
  intro query since polled seen
  have hsum : SumsUp f seen (since cs) := sumsUp_run f hinit cs
  refine ⟨?_, ?_, ?_⟩
  · intro hnone
    show query ++ _ = query
    cases hs : since cs with
    | none => exact List.append_nil _
    | some cursor =>
      rw [hs] at hsum
      obtain ⟨⟨v, hv⟩, _⟩ := hsum
      rw [hnone] at hv
      cases hv
  · rintro ⟨v, hv⟩
    cases hs : since cs with
    | none =>
      rw [hs] at hsum
      have hnone : seen.find? (completes f) = none := hsum
      rw [hnone] at hv
      cases hv
    | some cursor =>
      rw [hs] at hsum
      refine ⟨cursor.isoformat, cursor.asUtc, ?_, ?_, ?_⟩
      · show query ++ _ = _
        rw [hs]
      · exact parseDatetime_isoformat rt cursor
      · rw [isLUB_iff_le_iff]
        intro t
        rw [DateTime.asUtc_le_iff, isLUB_le_iff hsum.2]
  · intro cs' cursor cursor' hs hs'
    have hsum' : SumsUp f ((unrestricted f).visits d (cs ++ cs')) (since (cs ++ cs')) :=
      sumsUp_run f hinit (cs ++ cs')
    rw [hs] at hsum
    rw [hs', (unrestricted f).visits_append] at hsum'
    exact hsum.2.mono hsum'.2 (timestamps_subset f hsum.1)

/-- A poll that fails, and one that gets two orders. -/
theorem poll_query_sample :
    let down : Cycle := { failingCycle with
      poll := fun _ _ => .error ⟨.ExternalApiTimeoutError, "timed out"⟩ }
    let since (cs : List Cycle) := ((unrestricted sampleFacade).run sampleDaemon cs).updatedSince
    ManhattanSimulatorHttpClient.pollParams (since [down]) 100 =
      [("status", .str "READY_FOR_ENRICHMENT"), ("limit", .int 100), ("offset", .int 0)] ∧
    ∃ cursor, since [down, failingCycle] = some Sample.ten ∧ Sample.ten ≤ cursor ∧
      IsLUB (timestamps sampleFacade
        ((unrestricted sampleFacade).visits sampleDaemon [down, failingCycle])) cursor := by
  intro down since
  have hten : since [down, failingCycle] = some Sample.ten := by decide +kernel
  let next : Daemon × Cycle := ((runOnce sampleFacade down sampleDaemon).2, failingCycle)
  have hdone : completes sampleFacade next = true := by decide +kernel
  have hfind : ((unrestricted sampleFacade).visits sampleDaemon [down, failingCycle]).find?
      (completes sampleFacade) = some next := by
    have hdown : ¬ completes sampleFacade (sampleDaemon, down) = true := by decide +kernel
    have htwo : (unrestricted sampleFacade).visits sampleDaemon [down, failingCycle] =
        [(sampleDaemon, down), next] := rfl
    rw [htwo, List.find?_cons_of_neg hdown, List.find?_cons_of_pos hdone]
  obtain ⟨hnone, _⟩ := poll_query sampleFacade Sample.runtime (d := sampleDaemon) rfl [down]
  obtain ⟨_, hsome, _⟩ :=
    poll_query sampleFacade Sample.runtime (d := sampleDaemon) rfl [down, failingCycle]
  obtain ⟨text, cursor, _, _, hlub⟩ := hsome ⟨next, hfind⟩
  refine ⟨hnone rfl, cursor, hten, ?_, hlub⟩
  -- the younger of the two orders
  refine hlub.1 (Or.inr ⟨next, List.mem_cons_of_mem _ List.mem_cons_self, hdone, _, rfl,
    Sample.order "ORD-2" Sample.ten, ?_, rfl⟩)
  exact List.mem_cons_of_mem _ List.mem_cons_self

end PollingWorker

end RulesEnrichment
