import RulesEnrichment.FleetRuns
import RulesEnrichment.Lib.Duties

/-! # What a killed process leaves undone

    A call stores its attempt after it has submitted, and moves its order to
    the dead letters after it has stored the last attempt; each is a commit
    of its own. A process that is killed between them, or whose commit is
    refused, leaves the rest undone: a later call of the order makes an
    attempt under an id of its own.

    * `submissions_accounted`: each submission has its attempt, or waits for
      it, or has lost it.
    * `exhausted_accounted`: so has each attempt that was the last one its
      dead letter. -/

namespace RulesEnrichment

open StepMachine UnitOfWork KeyedTable WorkerPool

namespace Fleet

/-! ## Attempts of submissions -/

/-- The record is of what has been submitted. -/
def IsOfSubmission : Purpose → Prop
  | .noMatch => False
  | .success => True
  | .failure _ => True

/-- The call has submitted, and its attempt is not stored yet. -/
inductive OwesAttempt (id : String) : Work → Prop where
  | recording {uc c r purpose} (hid : c.correlationId = id) (hpurpose : IsOfSubmission purpose) :
      OwesAttempt id (.processing uc c (.recording r purpose))
  | committing {uc c r purpose writes} (hid : c.correlationId = id)
      (hpurpose : IsOfSubmission purpose) :
      OwesAttempt id (.processing uc c (.committing r purpose writes))

/-- The failure cannot be stored: its error ends the call. -/
inductive AttemptRefused (id : String) (w : World) : Work → Prop where
  | intro {uc c r exc writes e} (hid : c.correlationId = id)
      (hrefused : (DbSession.commit ⟨w.db, writes⟩ c.faults.failure w.db).1 = .error e) :
      AttemptRefused id w (.processing uc c (.committing r (.failure exc) writes))

/-- The submission under `id` has its attempt, and this is a success only if
    the submission was accepted. -/
def AttemptStored (id : String) (w : World) : Prop :=
  ∃ x ∈ w.submissions, ∃ a ∈ w.db.attempts, x.correlationId = id ∧ a.correlationId = id ∧
    a.orderId = x.orderId ∧ (a.status = .SUCCESS → x.accepted = true)

/-- There is an attempt under `id`, of whatever order. -/
def AttemptUnder (id : String) (w : World) : Prop := ∃ a ∈ w.db.attempts, a.correlationId = id

/-- To store the attempt of what was submitted under `id`. -/
def attemptDuty (id : String) : Duty World Work String where
  resource := id
  arisen w := ∃ x ∈ w.submissions, x.correlationId = id
  discharged := AttemptStored id
  owes := OwesAttempt id
  refused k w := AttemptRefused id w k
  spent w := id ∈ w.issued

section attempts

variable {uc : ProcessOrderUseCase} {c : ProcessCall} {w : World} {id : String}

theorem owesAttempt_arises {phase : DaemonPhase}
    (h : ∃ x ∈ (c.step uc phase w).2.submissions, x.correlationId = id) :
    (∃ x ∈ w.submissions, x.correlationId = id) ∨
      OwesAttempt id (.processing uc c (c.step uc phase w).1) := by
  by_cases hphase : ∃ n hash d, phase = .submitting n hash d
  · obtain ⟨n, hash, d, rfl⟩ := hphase
    simp only [ProcessCall.step, ProcessCall.submitEnrichment] at h ⊢
    cases hanswer : c.answer uc d with
    | error exc =>
      simp only [hanswer] at h ⊢
      obtain ⟨x, hx, hid⟩ := h
      rcases List.mem_append.mp hx with hx | hx
      · exact Or.inl ⟨x, hx, hid⟩
      · rw [List.mem_singleton.mp hx] at hid
        exact Or.inr (.recording hid trivial)
    | ok u =>
      simp only [hanswer] at h ⊢
      obtain ⟨x, hx, hid⟩ := h
      rcases List.mem_append.mp hx with hx | hx
      · exact Or.inl ⟨x, hx, hid⟩
      · rw [List.mem_singleton.mp hx] at hid
        exact Or.inr (.recording hid trivial)
  · rw [submissions_step fun n hash d hd => hphase ⟨n, hash, d, hd⟩] at h
    exact Or.inl h

/-- The record has its order and its submission. -/
theorem attemptStored_recorded {r : ResultRecord} {purpose : Purpose} {db : Database}
    (h : ToRecord uc c w r purpose) (hpurpose : IsOfSubmission purpose)
    (hrec : Recorded r w.db db) : AttemptStored c.correlationId { w with db := db } := by
  have hin : r.attempt ∈ db.attempts := hrec.mem_attempts.mpr (Or.inr rfl)
  obtain ⟨_, ⟨sent, hr⟩, hcovered⟩ := h
  cases hr with
  | noMatch n hash d hdec => exact hpurpose.elim
  | success n hash d x hdec =>
    obtain ⟨y, hy, hacc, hid, horder⟩ := hcovered
    exact ⟨y, hy, _, hin, hid, rfl, horder.symm, fun _ => hacc⟩
  | failure n hash exc x =>
    obtain ⟨y, hy, hid, horder⟩ := hcovered
    exact ⟨y, hy, _, hin, hid, rfl, horder.symm, nofun⟩

theorem owesAttempt_committing {r : ResultRecord} {purpose : Purpose} {db : Database}
    (h : ToRecord uc c w r purpose)
    (hrow : db.processedOrders.find? r.orderId ≠ none →
      w.db.processedOrders.find? r.orderId ≠ none) (hpurpose : IsOfSubmission purpose) :
    let p : DaemonPhase := .committing r purpose (persistSession r db).writes
    OwesAttempt c.correlationId (.processing uc c (c.step uc p w).1) ∨
      AttemptStored c.correlationId (c.step uc p w).2 ∨
      AttemptRefused c.correlationId w (.processing uc c p) := by
  intro p
  unfold p ProcessCall.step World.transact
  rcases commit_late_cases (c.faultOf purpose) r hrow with ⟨e, he⟩ | ⟨db', hok, hrec⟩
  · cases purpose with
    | noMatch => exact hpurpose.elim
    | success =>
      left
      simp only [he]
      exact .recording rfl trivial
    | failure exc =>
      have hrefused : (DbSession.commit ⟨w.db, (persistSession r db).writes⟩ c.faults.failure
          w.db).1 = .error e := congrArg Prod.fst he
      exact Or.inr (Or.inr (.intro rfl hrefused))
  · simp only [hok]
    exact Or.inr (Or.inl (attemptStored_recorded h hpurpose hrec))

/-- A call that could not store the failure is finished, and has stored
    nothing. -/
theorem attempt_refused (uc : ProcessOrderUseCase) {r : ResultRecord} {exc : PyErr} {db : Database}
    (hrow : db.processedOrders.find? r.orderId ≠ none →
      w.db.processedOrders.find? r.orderId ≠ none)
    {e : PyErr} (hrefused : (DbSession.commit ⟨w.db, (persistSession r db).writes⟩ c.faults.failure
      w.db).1 = .error e) :
    let p : DaemonPhase := .committing r (.failure exc) (persistSession r db).writes
    (∃ result, (c.step uc p w).1 = .finished result) ∧ (c.step uc p w).2 = w := by
  intro p
  unfold p ProcessCall.step World.transact
  rcases commit_late_cases (c.faultOf (.failure exc)) r hrow with ⟨e', he⟩ | ⟨db', hok, _⟩
  · simp only [he]
    exact ⟨⟨_, rfl⟩, trivial⟩
  · have hok' : (DbSession.commit ⟨w.db, (persistSession r db).writes⟩ c.faults.failure
        w.db).1 = .ok () := congrArg Prod.fst hok
    rw [hok'] at hrefused
    cases hrefused

theorem OwesAttempt.owned {k : Work} (h : OwesAttempt id k) : id ∈ owns k := by
  cases h with
  | recording hid hpurpose => exact hid.symm
  | committing hid hpurpose => exact hid.symm

theorem OwesAttempt.unrecorded {k : Work} (h : OwesAttempt id k) (hk : Knows k w) :
    ¬ AttemptUnder id w := by
  rintro ⟨a, ha, hid⟩
  cases h with
  | recording hid' hpurpose =>
    have hrecord : ToRecord _ _ w _ _ := hk
    exact hrecord.pending.unrecorded a ha (hid.trans hid'.symm)
  | committing hid' hpurpose =>
    have hrecord : ToRecord _ _ w _ _ := hk.1
    exact hrecord.pending.unrecorded a ha (hid.trans hid'.symm)

theorem AttemptStored.under (h : AttemptStored id w) : AttemptUnder id w := by
  obtain ⟨_, _, a, ha, _, hid, _⟩ := h
  exact ⟨a, ha, hid⟩

end attempts

theorem not_owned_finished {uc : ProcessOrderUseCase} {c : ProcessCall} {phase : DaemonPhase}
    (h : ∃ result, phase = .finished result) (id : String) : id ∉ owns (.processing uc c phase) := by
  obtain ⟨result, rfl⟩ := h
  exact fun hid => hid

/-- **The duty to store** the attempt of what was submitted. -/
theorem attemptDuty_fits (id : String) : (attemptDuty id).Fits job contract where
  start := by
    intro w t h
    cases t with
    | process uc c => exact h
    | publish c => exact h
  arises := by
    intro w k hk h
    cases k with
    | processing uc c phase => exact owesAttempt_arises h
    | publishing c p =>
      obtain ⟨x, hx, hid⟩ := h
      obtain ⟨sent, hk⟩ := hk
      have hdoes : Does ∅ w (c.step p w).2 := (outbox_step hk).1
      exact Or.inl ⟨x, hdoes.frame.submissions_of_not_own hx fun hin => hin, hid⟩
  step := by
    intro w k hk howes
    cases howes with
    | recording hid hpurpose => exact Or.inl (.committing hid hpurpose)
    | committing hid hpurpose =>
      obtain ⟨hrecord, db, rfl, hrow⟩ := hk
      subst hid
      exact owesAttempt_committing hrecord hrow hpurpose
  refused := by
    intro w k hk hrefused
    cases hrefused with
    | @intro uc c r exc writes e hid hrefused =>
      have hpurpose : IsOfSubmission (.failure exc) := trivial
      have howes : OwesAttempt id (.processing uc c (.committing r (.failure exc) writes)) :=
        .committing hid hpurpose
      have hunstored := mt AttemptStored.under (howes.unrecorded hk)
      obtain ⟨_, db, rfl, hrow⟩ := hk
      obtain ⟨hfinished, hsame⟩ := attempt_refused uc hrow hrefused
      refine ⟨howes, not_owned_finished hfinished id, ?_⟩
      show ¬ AttemptStored id (c.step uc _ w).2
      rwa [hsame]
  not_done := by
    intro k howes hdone
    cases howes with
    | recording => obtain ⟨_, hdone⟩ := hdone; cases hdone
    | committing => obtain ⟨_, hdone⟩ := hdone; cases hdone
  owned := OwesAttempt.owned
  open_of_owes hk howes := mt AttemptStored.under (howes.unrecorded hk)
  stays := by
    rintro own w w' hdoes ⟨x, hx, a, ha, hfacts⟩
    exact ⟨x, hdoes.frame.mem_submissions hx, a, hdoes.frame.mem_attempts ha, hfacts⟩
  alone := by
    rintro own w w' hdoes hown ⟨x, hx, a, ha, hxid, haid, hfacts⟩
    refine ⟨x, hdoes.frame.submissions_of_not_own hx ?_, a,
      hdoes.frame.attempts_of_not_own ha ?_, hxid, haid, hfacts⟩
    · rwa [hxid]
    · rwa [haid]
  fresh := by
    intro w t hpromise hspent hid
    cases t with
    | process uc c => exact hpromise.2 (hid ▸ hspent)
    | publish c => exact hid
  spent hk hid := hk.issued hid
  spent_stays hdoes := hdoes.frame.issued id

/-- The same duty, which any attempt under the id would discharge. -/
def recordDuty (id : String) : Duty World Work String :=
  { attemptDuty id with discharged := AttemptUnder id }

theorem recordDuty_fits (id : String) : (recordDuty id).Fits job contract where
  start := (attemptDuty_fits id).start
  arises := (attemptDuty_fits id).arises
  step hk howes :=
    ((attemptDuty_fits id).step hk howes).imp_right (Or.imp_left AttemptStored.under)
  refused := by
    intro w k hk hrefused
    obtain ⟨howes, hfree, _⟩ := (attemptDuty_fits id).refused hk hrefused
    refine ⟨howes, hfree, ?_⟩
    cases hrefused with
    | @intro uc c r exc writes e hid hrefused =>
      have hunrecorded := OwesAttempt.unrecorded howes hk
      obtain ⟨_, db, rfl, hrow⟩ := hk
      show ¬ AttemptUnder id (c.step uc _ w).2
      rwa [(attempt_refused uc hrow hrefused).2]
  not_done := (attemptDuty_fits id).not_done
  owned := (attemptDuty_fits id).owned
  open_of_owes hk howes := howes.unrecorded hk
  stays := by
    rintro own w w' hdoes ⟨a, ha, hid⟩
    exact ⟨a, (Does.frame hdoes).mem_attempts ha, hid⟩
  alone := by
    rintro own w w' hdoes hown ⟨a, ha, rfl⟩
    exact ⟨a, (Does.frame hdoes).attempts_of_not_own ha hown, rfl⟩
  fresh := (attemptDuty_fits id).fresh
  spent := (attemptDuty_fits id).spent
  spent_stays := (attemptDuty_fits id).spent_stays

/-! ## Dead letters of failures -/

/-- The last attempt is stored, and the order is still to be moved. -/
inductive OwesDeadLetter (id : String) : Work → Prop where
  | givingUp {uc c exc} (hid : c.correlationId = id) :
      OwesDeadLetter id (.processing uc c (.givingUp exc))

inductive DeadLetterRefused (id : String) (w : World) : Work → Prop where
  | intro {uc c exc e} (hid : c.correlationId = id)
      (hrefused : (moveToDeadLetter c.faults.deadLetter c.deadLetterRecord w.db).1 = .error e) :
      DeadLetterRefused id w (.processing uc c (.givingUp exc))

/-- The call with this id has used up the `m` attempts of its order. -/
def Exhausted (m : Nat) (id : String) (w : World) : Prop :=
  ∃ a ∈ w.db.attempts, a.correlationId = id ∧ a.status = .FAILED ∧ m ≤ a.attemptNumber

/-- To move the order whose last attempt had this id. -/
def deadLetterDuty (m : Nat) (id : String) : Duty World Work String where
  resource := id
  arisen := Exhausted m id
  discharged w := ∃ i ∈ w.db.deadLetter, i.correlationId = id
  owes := OwesDeadLetter id
  refused k w := DeadLetterRefused id w k
  spent w := id ∈ w.issued

/-- The daemon gives an order up after `m` attempts. -/
def Task.GivesUpAfter (m : Nat) : Task → Prop
  | .process uc _ => uc.maxProcessingAttempts = m
  | .publish _ => True

def Work.GivesUpAfter (m : Nat) : Work → Prop
  | .processing uc _ _ => uc.maxProcessingAttempts = m
  | .publishing _ _ => True

section deadLetters

variable {uc : ProcessOrderUseCase} {c : ProcessCall} {w : World} {id : String} {m : Nat}

/-- A failure with the last number leads to the dead letters. -/
theorem owesDeadLetter_committing {r : ResultRecord} {purpose : Purpose} {db : Database}
    (hmax : uc.maxProcessingAttempts = m) (h : ToRecord uc c w r purpose)
    (hrow : db.processedOrders.find? r.orderId ≠ none →
      w.db.processedOrders.find? r.orderId ≠ none) :
    let p : DaemonPhase := .committing r purpose (persistSession r db).writes
    Exhausted m id (c.step uc p w).2 → Exhausted m id w ∨
      OwesDeadLetter id (.processing uc c (c.step uc p w).1) := by
  intro p
  unfold p ProcessCall.step World.transact
  rcases commit_late_cases (c.faultOf purpose) r hrow with ⟨e, he⟩ | ⟨db', hok, hrec⟩
  · simp only [he]
    exact Or.inl
  · simp only [hok]
    rintro ⟨a, ha, hid, hstatus, hnumber⟩
    rcases hrec.mem_attempts.mp ha with ha | rfl
    · exact Or.inl ⟨a, ha, hid, hstatus, hnumber⟩
    · right
      obtain ⟨_, ⟨sent, hr⟩, _⟩ := h
      cases hr with
      | noMatch n hash d hdec => cases hstatus
      | success n hash d x hdec => cases hstatus
      | failure n hash exc x =>
        have hlast : uc.maxProcessingAttempts ≤ (c.failureRecord n hash exc).attemptNumber := by
          rw [hmax]
          exact hnumber
        rw [ProcessCall.afterCommit, if_pos hlast]
        exact .givingUp hid

/-- The move to the dead letters, or its refusal, ends the call. -/
theorem givingUp_step (uc : ProcessOrderUseCase) (c : ProcessCall) (exc : PyErr) (w : World) :
    (∃ result, (c.step uc (.givingUp exc) w).1 = .finished result) ∧
    ((∃ i ∈ (c.step uc (.givingUp exc) w).2.db.deadLetter, i.correlationId = c.correlationId) ∨
      DeadLetterRefused c.correlationId w (.processing uc c (.givingUp exc))) := by
  unfold ProcessCall.step World.transact
  rcases moveToDeadLetter_cases c.faults.deadLetter c.deadLetterRecord w.db with
    ⟨e, he⟩ | ⟨db', hok, hdead, _⟩
  · simp only [he]
    exact ⟨⟨_, rfl⟩, Or.inr (.intro rfl (congrArg Prod.fst he))⟩
  · simp only [hok]
    exact ⟨⟨_, rfl⟩, Or.inl ⟨_, hdead.mem_deadLetter.mpr (Or.inr rfl), rfl⟩⟩

theorem givingUp_refused (uc : ProcessOrderUseCase) (exc : PyErr) {e : PyErr}
    (h : (moveToDeadLetter c.faults.deadLetter c.deadLetterRecord w.db).1 = .error e) :
    (c.step uc (.givingUp exc) w).2 = w := by
  unfold ProcessCall.step World.transact
  rcases moveToDeadLetter_cases c.faults.deadLetter c.deadLetterRecord w.db with
    ⟨e', he⟩ | ⟨db', hok, _⟩
  · simp only [he]
  · rw [hok] at h
    cases h

end deadLetters

/-- Daemons with one limit keep to the contract, and to the limit. -/
theorem keeps_limit (m : Nat) : Keeps (job.only (Task.GivesUpAfter m))
    (contract.only (Work.GivesUpAfter m)) := by
  refine keeps_contract.only ?_ ?_
  · intro w t ht
    cases t with
    | process uc c => exact ht
    | publish c => trivial
  · intro k w hk
    cases k with
    | processing uc c phase => exact hk
    | publishing c p => trivial

/-- **The duty to move** an order that has used up its attempts. -/
theorem deadLetterDuty_fits (m : Nat) (id : String) : (deadLetterDuty m id).Fits
    (job.only (Task.GivesUpAfter m)) (contract.only (Work.GivesUpAfter m)) where
  start := by
    intro w t h
    cases t with
    | process uc c => exact h
    | publish c => exact h
  arises := by
    rintro w k ⟨hk, hmax⟩ h
    cases k with
    | publishing c p =>
      obtain ⟨a, ha, hfacts⟩ := h
      obtain ⟨sent, hk⟩ := hk
      have hdoes : Does ∅ w (c.step p w).2 := (outbox_step hk).1
      exact Or.inl ⟨a, hdoes.frame.attempts_of_not_own ha fun hin => hin, hfacts⟩
    | processing uc c phase =>
      by_cases hphase : ∃ r purpose writes, phase = .committing r purpose writes
      · obtain ⟨r, purpose, writes, rfl⟩ := hphase
        obtain ⟨hrecord, db, rfl, hrow⟩ := hk
        exact owesDeadLetter_committing hmax hrecord hrow h
      · obtain ⟨a, ha, hfacts⟩ := h
        have ha : a ∈ (c.step uc phase w).2.db.attempts := ha
        rw [attempts_step fun r purpose writes hp => hphase ⟨r, purpose, writes, hp⟩] at ha
        exact Or.inl ⟨a, ha, hfacts⟩
  step := by
    intro w k hk howes
    cases howes with
    | @givingUp uc c exc hid =>
      subst hid
      rcases (givingUp_step uc c exc w).2 with hmoved | hrefused
      · exact Or.inr (Or.inl hmoved)
      · exact Or.inr (Or.inr hrefused)
  refused := by
    intro w k hk hrefused
    cases hrefused with
    | @intro uc c exc e hid hrefused =>
      refine ⟨.givingUp hid, not_owned_finished (givingUp_step uc c exc w).1 id, ?_⟩
      show ¬ ∃ i ∈ (c.step uc (.givingUp exc) w).2.db.deadLetter, i.correlationId = id
      rw [givingUp_refused uc exc hrefused]
      rintro ⟨i, hi, hid'⟩
      exact hk.1.2.1 i hi (hid'.trans hid.symm)
  not_done := by
    intro k howes hdone
    cases howes with
    | givingUp => obtain ⟨_, hdone⟩ := hdone; cases hdone
  owned := by
    intro k howes
    cases howes with
    | givingUp hid => exact hid.symm
  open_of_owes := by
    rintro w k ⟨hk, _⟩ howes ⟨i, hi, hid⟩
    cases howes with
    | givingUp hid' => exact hk.2.1 i hi (hid.trans hid'.symm)
  stays := by
    rintro own w w' hdoes ⟨i, hi, hid⟩
    obtain ⟨is, his, _⟩ := Does.frame hdoes |>.deadLetter
    exact ⟨i, his ▸ List.mem_append_left is hi, hid⟩
  alone := by
    rintro own w w' hdoes hown ⟨i, hi, rfl⟩
    exact ⟨i, (Does.frame hdoes).deadLetter_of_not_own hi hown, rfl⟩
  fresh hpromise := (attemptDuty_fits id).fresh hpromise.1
  spent hk := (attemptDuty_fits id).spent hk.1
  spent_stays := (attemptDuty_fits id).spent_stays

/-! ## Runs -/

section runs

variable {ι : Type} [DecidableEq ι]

/-- **Submissions in a fleet.** Each of them, whoever made it: its attempt
    is stored, or a process that lives is still to store it, or a process
    was killed before, or was refused the commit of the failure; and never
    two of these. In the last case there is no attempt under its id, of
    whatever order, then or later. -/
theorem submissions_accounted {s : Pool ι World Work} {inputs : List (Input ι Task)}
    (hs : (machine ι).init s) (hl : (machine ι).Legal s inputs) {x : Submission}
    (hx : x ∈ ((machine ι).run s inputs).shared.submissions) :
    (∃! f, (attemptDuty x.correlationId).HasFate ((machine ι).visits s inputs)
      ((machine ι).run s inputs) f) ∧
    ((attemptDuty x.correlationId).HasFate ((machine ι).visits s inputs)
        ((machine ι).run s inputs) .lost →
      ¬ AttemptUnder x.correlationId ((machine ι).run s inputs).shared) := by
  have hfresh : ∀ w, (∃ rules, w = World.fresh rules) →
      contract.valid w ∧ ¬ (attemptDuty x.correlationId).arisen w := by
    rintro w ⟨rules, rfl⟩
    refine ⟨Valid.fresh rules, ?_⟩
    rintro ⟨y, hy, _⟩
    cases hy
  refine ⟨(attemptDuty_fits x.correlationId).fate keeps_contract hfresh hs hl ⟨x, hx, rfl⟩, ?_⟩
  intro hlost hunder
  -- both duties are lost by the same steps
  obtain ⟨f, _, hone⟩ := (recordDuty_fits x.correlationId).fate keeps_contract hfresh hs hl
    ⟨x, hx, rfl⟩
  cases (hone .lost hlost).trans (hone .discharged hunder).symm

theorem submissions_accounted_killed :
    let m := machine Bool
    ∃ x ∈ (m.run (nobody Bool) killed).shared.submissions,
      (∃! f, (attemptDuty x.correlationId).HasFate (m.visits (nobody Bool) killed)
        (m.run (nobody Bool) killed) f) ∧
      ((attemptDuty x.correlationId).HasFate (m.visits (nobody Bool) killed)
          (m.run (nobody Bool) killed) .lost →
        ¬ AttemptUnder x.correlationId (m.run (nobody Bool) killed).shared) := by
  intro m
  obtain ⟨x, hx⟩ : ∃ x, x ∈ (m.run (nobody Bool) killed).shared.submissions := ⟨_, List.mem_cons_self⟩
  exact ⟨x, hx, submissions_accounted init_nobody (legal_sample false _ _ rfl) hx⟩

/-- The fleet of daemons that give an order up after `m` attempts. -/
def limited (m : Nat) (ι : Type) [DecidableEq ι] : Machine (Pool ι World Work) (Input ι Task) :=
  (job.only (Task.GivesUpAfter m)).machine ι fun w => ∃ rules, w = World.fresh rules

/-- **Exhausted orders in a fleet.** Each failure with the last number: its
    order is in the dead letters under its id, or a process that lives is
    still to move it, or a process was killed before, or was refused the
    move; and never two of these. -/
theorem exhausted_accounted {m : Nat} {s : Pool ι World Work} {inputs : List (Input ι Task)}
    (hs : (limited m ι).init s) (hl : (limited m ι).Legal s inputs) {a : ProcessingAttempt}
    (ha : a ∈ ((limited m ι).run s inputs).shared.db.attempts) (hstatus : a.status = .FAILED)
    (hnumber : m ≤ a.attemptNumber) :
    ∃! f, (deadLetterDuty m a.correlationId).HasFate ((limited m ι).visits s inputs)
      ((limited m ι).run s inputs) f := by
  refine (deadLetterDuty_fits m a.correlationId).fate (keeps_limit m) ?_ hs hl
    ⟨a, ha, rfl, hstatus, hnumber⟩
  rintro w ⟨rules, rfl⟩
  refine ⟨Valid.fresh rules, ?_⟩
  rintro ⟨a, ha, _⟩
  cases ha

/-- The process is killed between the only attempt and the dead letter. -/
def killedLate : List (Input Bool Task) :=
  .start false (.process (Sample.useCase 1) (Sample.call Sample.refuse)) ::
    (List.replicate 4 (.turn false) ++ [.kill false])

theorem exhausted_accounted_killed :
    let m := limited 1 Bool
    ∃ a ∈ (m.run (nobody Bool) killedLate).shared.db.attempts, a.status = .FAILED ∧
      (m.run (nobody Bool) killedLate).shared.db.deadLetter = [] ∧
      ∃! f, (deadLetterDuty 1 a.correlationId).HasFate (m.visits (nobody Bool) killedLate)
        (m.run (nobody Bool) killedLate) f := by
  intro m
  have hl : m.Legal (nobody Bool) killedLate := by
    have hnew : (job.only (Task.GivesUpAfter 1)).promise (nobody Bool).shared
        (.process (Sample.useCase 1) (Sample.call Sample.refuse)) :=
      ⟨⟨by decide, List.not_mem_nil⟩, rfl⟩
    refine legal_start ?_ hnew rfl
    intro k hk
    cases hk
  have ha : ∃ a, a ∈ (m.run (nobody Bool) killedLate).shared.db.attempts ∧ a.status = .FAILED ∧
      1 ≤ a.attemptNumber := ⟨_, List.mem_cons_self, rfl, Nat.le_refl 1⟩
  obtain ⟨a, ha, hstatus, hnumber⟩ := ha
  exact ⟨a, ha, hstatus, rfl, exhausted_accounted init_nobody hl ha hstatus hnumber⟩

end runs

end Fleet

end RulesEnrichment
