import RulesEnrichment.FleetRuns
import RulesEnrichment.Lib.Balance
import Mathlib.Data.Fintype.Basic

/-! # Deliveries of a fleet

    Several publishers may list one message before any of them has marked
    it, and each gives it to the sink. A delivery is never made twice for
    one listing, and one that is missing was to be made by a process that
    has been killed.

    * `deliveries_accounted`: deliveries and listings of a message. -/

namespace RulesEnrichment

open StepMachine UnitOfWork KeyedTable WorkerPool

namespace Fleet

/-! ## One execution -/

/-- How often the message is still to be given to the sink. -/
def toGive (id : String) : Work → Nat
  | .processing _ _ _ => 0
  | .publishing _ p => p.rest.countP (·.messageId = id)

/-- How often the next step lists the message. -/
def lists (id : String) : Work → World → Nat
  | .processing _ _ _, _ => 0
  | .publishing c p, w =>
    match p.phase with
    | .listing => (c.batch w.db).countP (·.messageId = id)
    | _ => 0

/-- The message, from its listing to the sink. -/
def deliveryTally (id : String) : Tally World Work where
  held := toGive id
  out w := w.deliveries.countP (·.messageId = id)
  taken := lists id

/-- What an execution has listed it gives out one by one. -/
theorem outbox_balance (id : String) {c : PublishCall} {p : Publisher} {sent : List OutboxMessage}
    (h : HasSent c p sent) (w : World) :
    (c.step p w).2.deliveries.countP (·.messageId = id) +
        (c.step p w).1.rest.countP (·.messageId = id) =
      w.deliveries.countP (·.messageId = id) + p.rest.countP (·.messageId = id) +
        lists id (.publishing c p) w := by
  cases h with
  | listing => rfl
  | publishing sent rest =>
    cases rest with
    | nil =>
      simp only [PublishCall.step, lists]
      split <;> rfl
    | cons m rest =>
      have hstep : (c.step ⟨.publishing, sent ++ m :: rest, m :: rest, sent.map c.mark,
          (sent.filter c.accepts).length⟩ w).2.deliveries = w.deliveries ++ [c.delivery m] ∧
          (c.step ⟨.publishing, sent ++ m :: rest, m :: rest, sent.map c.mark,
            (sent.filter c.accepts).length⟩ w).1.rest = rest := by
        simp only [PublishCall.step, PublishCall.delivery, PublishCall.accepts]
        cases c.sink m <;> exact ⟨rfl, rfl⟩
      rw [hstep.1, hstep.2]
      simp only [List.countP_append, List.countP_cons, List.countP_nil, lists, PublishCall.delivery]
      omega
  | marking sent rest m =>
    cases hacc : c.accepts m with
    | true => simp only [PublishCall.step, lists]; rfl
    | false => simp only [PublishCall.step, lists]; rfl
  | finished sent result => rfl

theorem deliveryTally_balances (id : String) : (deliveryTally id).Balances job contract where
  start := by
    intro w t
    cases t with
    | process uc c => exact ⟨rfl, rfl⟩
    | publish c => exact ⟨rfl, rfl⟩
  step := by
    intro w k hk
    cases k with
    | publishing c p =>
      obtain ⟨sent, hk⟩ := hk
      exact outbox_balance id hk.hasSent w
    | processing uc c phase =>
      exact congrArg (List.countP (·.messageId = id)) (deliveries_step phase)
  done := by
    intro w k hk hdone
    cases k with
    | processing uc c phase => rfl
    | publishing c p =>
      obtain ⟨result, hdone⟩ := hdone
      obtain ⟨sent, hk⟩ := hk
      have hsent := hk.hasSent
      cases hsent with
      | listing => cases hdone
      | publishing sent rest => cases hdone
      | marking sent rest m => cases hdone
      | finished sent result => rfl

theorem countP_batch_le (id : String) (c : PublishCall) (db : Database) :
    (c.batch db).countP (·.messageId = id) ≤ 1 := by
  have hcount := List.nodup_iff_count_le_one.mp (c.nodup_batch db) id
  rwa [List.count, List.countP_map] at hcount

/-- A message is listed once by an execution, and while it is pending. -/
theorem lists_le (id : String) (k : Work) (w : World) :
    lists id k w ≤ 1 ∧ (lists id k w ≠ 0 → w.db.statusOf id = some .PENDING) := by
  cases k with
  | processing uc c phase => exact ⟨Nat.zero_le 1, fun h => absurd rfl h⟩
  | publishing c p =>
    cases hphase : p.phase with
    | listing =>
      simp only [lists, hphase]
      refine ⟨countP_batch_le id c w.db, ?_⟩
      intro hne
      obtain ⟨m, hm, hid⟩ := List.countP_pos_iff.mp (Nat.pos_of_ne_zero hne)
      obtain ⟨hrow, hpending⟩ := c.mem_batch hm
      rw [← of_decide_eq_true hid, statusOf_of_mem hrow, hpending]
    | publishing =>
      simp only [lists, hphase]
      exact ⟨Nat.zero_le 1, fun h => absurd rfl h⟩
    | marking m accepted =>
      simp only [lists, hphase]
      exact ⟨Nat.zero_le 1, fun h => absurd rfl h⟩
    | finished result =>
      simp only [lists, hphase]
      exact ⟨Nat.zero_le 1, fun h => absurd rfl h⟩

/-! ## Runs -/

variable {ι : Type} [DecidableEq ι] [Fintype ι]

/-- **Deliveries of a fleet.** A message has been given to the sink as often
    as executions have listed it, each while it was pending, except for
    those that are still to give it and those that were killed before. -/
theorem deliveries_accounted (id : String) {s : Pool ι World Work} {inputs : List (Input ι Task)}
    (hs : (machine ι).init s) (hl : (machine ι).Legal s inputs) :
    ((machine ι).run s inputs).shared.deliveries.countP (·.messageId = id) +
        (deliveryTally id).total ((machine ι).run s inputs) +
        (((machine ι).visits s inputs).map fun v => (deliveryTally id).lostWith v.1 v.2).sum =
      (((machine ι).visits s inputs).map fun v => (deliveryTally id).takenWith v.1 v.2).sum ∧
    ∀ v ∈ (machine ι).visits s inputs, (deliveryTally id).takenWith v.1 v.2 ≤ 1 ∧
      ((deliveryTally id).takenWith v.1 v.2 ≠ 0 → v.1.shared.db.statusOf id = some .PENDING) := by
  constructor
  · obtain ⟨rules, hfresh⟩ := hs.1
    have hholds : contract.Holds s := .idle (hfresh ▸ Valid.fresh rules) hs.2
    have hrun := (deliveryTally_balances id).run keeps_contract hholds hl
    have hout : (deliveryTally id).out s.shared = 0 := by
      rw [hfresh]
      rfl
    have htotal : (deliveryTally id).total s = 0 := by
      refine Finset.sum_eq_zero fun i _ => ?_
      rw [Tally.heldBy, hs.2 i, Option.elim_none]
    rw [hout, htotal, Nat.add_zero, Nat.zero_add] at hrun
    exact hrun
  · rintro ⟨p, input⟩ _
    cases input with
    | start i t => exact ⟨Nat.zero_le 1, fun h => absurd rfl h⟩
    | kill i => exact ⟨Nat.zero_le 1, fun h => absurd rfl h⟩
    | turn i =>
      have htaken : (deliveryTally id).takenWith p (.turn i : Input ι Task) =
          (p.locals i).elim 0 fun k => lists id k p.shared := rfl
      rw [htaken]
      cases p.locals i with
      | none => exact ⟨Nat.zero_le 1, fun h => absurd rfl h⟩
      | some k => exact lists_le id k p.shared

/-- Two executions list the message of a call; one is killed. -/
def listedTwice : List (Input (Fin 3) Task) :=
  .start 0 (.process (Sample.useCase 3) (Sample.call Sample.accept)) :: List.replicate 7 (.turn 0) ++
    (.start 1 (.publish (TwoPublishers.publishCalls false)) :: [.turn 1] ++
    (.start 2 (.publish (TwoPublishers.publishCalls true)) :: [.turn 2, .turn 1, .kill 2]))

theorem deliveries_accounted_twice :
    let m := machine (Fin 3)
    let id := messageIdOf Sample.correlationId "ORD-1"
    let s := m.run (nobody (Fin 3)) listedTwice
    s.shared.deliveries.countP (·.messageId = id) + (deliveryTally id).total s +
        ((m.visits (nobody (Fin 3)) listedTwice).map fun v =>
          (deliveryTally id).lostWith v.1 v.2).sum =
      ((m.visits (nobody (Fin 3)) listedTwice).map fun v =>
        (deliveryTally id).takenWith v.1 v.2).sum ∧
    s.shared.deliveries.length = 1 := by
  intro m id s
  have hl : m.Legal (nobody (Fin 3)) listedTwice := by
    have hfree : ∀ {s : Pool (Fin 3) World Work} {i k}, s.locals i = none →
        s.locals i = some k → Done k := by
      intro s i k hnone hk
      rw [hnone] at hk
      cases hk
    rw [listedTwice, Machine.legal_append, Machine.legal_append]
    exact ⟨legal_sample 0 _ _ rfl, legal_start (fun k => hfree rfl) trivial rfl,
      legal_start (fun k => hfree rfl) trivial rfl⟩
  exact ⟨(deliveries_accounted id init_nobody hl).1, rfl⟩

end Fleet

end RulesEnrichment
