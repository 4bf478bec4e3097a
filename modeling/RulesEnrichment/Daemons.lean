import RulesEnrichment.Lib.Interleaving
import RulesEnrichment.Attempts
import RulesEnrichment.Hash

/-! # Two daemons

    While a deployment is rolled out, two daemons may process one order at
    the same time. `ProcessOrderForEnrichmentUseCase.execute` is cut here
    into its steps: read the attempt number, read the processed row,
    submit, open the session of a record, commit it. Each read sees what
    is committed then, and no constraint but the primary keys stands
    behind the check for duplicates; `two_daemons` says what remains true. -/

namespace RulesEnrichment

open StepMachine UnitOfWork KeyedTable Interleaving

/-! ## The steps of a call -/

/-- What a record is made for; it decides what its error means. -/
inductive Purpose where
  | noMatch
  | success
  | failure (exc : PyErr)

/-- Where a call of `execute` stands. -/
inductive DaemonPhase where
  | starting
  /-- The attempt number has been read. -/
  | numbered (n : Nat)
  /-- The order is no duplicate, and rules match it. -/
  | submitting (n : Nat) (hash : String) (d : EnrichmentDecision)
  | recording (r : ResultRecord) (purpose : Purpose)
  /-- The session of the record is open. -/
  | committing (r : ResultRecord) (purpose : Purpose) (writes : List Write)
  | givingUp (exc : PyErr)
  | finished (result : Except PyErr ProcessCall.Result)

namespace ProcessCall

variable (uc : ProcessOrderUseCase) (c : ProcessCall)

def faultOf : Purpose → Option PyErr
  | .noMatch => c.faults.success
  | .success => c.faults.success
  | .failure _ => c.faults.failure

/-- Where the commit of a record leads. -/
def afterCommit (r : ResultRecord) : Purpose → Except PyErr Unit → DaemonPhase
  | .noMatch, .error e => .finished (.error e)
  | .noMatch, .ok () => .finished (.ok (true, c.correlationId, false))
  -- the commit of a success is inside the `try`
  | .success, .error e =>
    .recording (c.failureRecord r.attemptNumber r.enrichmentHash e) (.failure e)
  | .success, .ok () => .finished (.ok (true, c.correlationId, false))
  | .failure _, .error e => .finished (.error e)
  | .failure exc, .ok () =>
    if uc.maxProcessingAttempts ≤ r.attemptNumber then .givingUp exc
    else .finished (.error ⟨.EnrichmentSubmissionError, exc.msg⟩)

/-- The next step of `ProcessOrderForEnrichmentUseCase.execute`. -/
def step (p : DaemonPhase) (w : World) : DaemonPhase × World :=
  match p with
  | .starting => (.numbered (c.attemptNumber w), w.issue c.correlationId)
  | .numbered n =>
    match evaluate uc.runtime c.order c.rules c.now with
    | .error e => (.finished (.error e), w)
    | .ok d =>
      match computeHash uc.runtime c.order d.enrichedFields with
      | .error e => (.finished (.error e), w)
      | .ok hash =>
        if c.isDuplicate w hash then (.finished (.ok (true, c.correlationId, true)), w)
        else if !d.hasMatches then (.recording (c.noMatchRecord n hash) .noMatch, w)
        else (.submitting n hash d, w)
  | .submitting n hash d =>
    match c.submitEnrichment uc d w with
    | (.error exc, w) => (.recording (c.failureRecord n hash exc) (.failure exc), w)
    | (.ok (), w) => (.recording (c.successRecord n hash d) .success, w)
  -- the save of the processed order reads its row when the session is open
  | .recording r purpose => (.committing r purpose (persistSession r w.db).writes, w)
  | .committing r purpose writes =>
    match w.transact (DbSession.commit ⟨w.db, writes⟩ (c.faultOf purpose) w.db) with
    | (res, w) => (c.afterCommit uc r purpose res, w)
  | .givingUp exc =>
    match w.transact (moveToDeadLetter c.faults.deadLetter c.deadLetterRecord w.db) with
    | (.error e, w) => (.finished (.error e), w)
    | (.ok (), w) => (.finished (.error ⟨.EnrichmentSubmissionError, exc.msg⟩), w)
  | .finished result => (.finished result, w)

end ProcessCall

/-- Two calls for one order. Each has its own copy of the order, its own
    rules and its own environment. -/
structure TwoCalls where
  call : Bool → ProcessCall
  orderId : String
  sameOrder : ∀ i, (call i).order.orderId = orderId

/-- The two calls over one database. -/
def daemons (uc : ProcessOrderUseCase) (p : TwoCalls) :
    Machine (Config Bool World DaemonPhase) Bool :=
  Interleaving.machine (fun i => (p.call i).step uc) .starting

def bothStarting (w : World) : Config Bool World DaemonPhase := ⟨w, fun _ => .starting⟩

/-! ## One call alone -/

section alone

variable (uc : ProcessOrderUseCase) (p : TwoCalls) (i : Bool)

theorem alone_finished (n : Nat) (result : Except PyErr ProcessCall.Result) (w : World) :
    alone (fun i => (p.call i).step uc) i n (.finished result, w) = (.finished result, w) := by
  induction n with
  | zero => rfl
  | succ n ih =>
    rw [alone_succ]
    exact ih

/-- Opening the session and committing it is the unit of work of the record. -/
theorem alone_recording (n : Nat) (r : ResultRecord) (purpose : Purpose) (w : World) :
    alone (fun i => (p.call i).step uc) i (n + 2) (.recording r purpose, w) =
      alone (fun i => (p.call i).step uc) i n
        ((p.call i).afterCommit uc r purpose
            (w.transact (persistResult ((p.call i).faultOf purpose) r w.db)).1,
          (w.transact (persistResult ((p.call i).faultOf purpose) r w.db)).2) := rfl

/-- The handler. -/
theorem alone_failure (n m : Nat) (hash : String) (exc : PyErr) (w : World) :
    alone (fun i => (p.call i).step uc) i (m + 1 + 2)
        (.recording ((p.call i).failureRecord n hash exc) (.failure exc), w) =
      (.finished (.error ((p.call i).exceptBlock uc n hash exc w).1),
        ((p.call i).exceptBlock uc n hash exc w).2) := by
  rw [alone_recording]
  unfold ProcessCall.exceptBlock ProcessCall.faultOf
  cases h : w.transact (persistResult (p.call i).faults.failure
      ((p.call i).failureRecord n hash exc) w.db) with
  | mk res w₁ =>
    cases res with
    | error e => exact alone_finished uc p i (m + 1) (.error e) w₁
    | ok u =>
      show alone _ i (m + 1) (if _ then _ else _, w₁) = _
      have hnumber : ((p.call i).failureRecord n hash exc).attemptNumber = n := rfl
      rw [hnumber]
      by_cases hlimit : uc.maxProcessingAttempts ≤ n
      · simp only [if_pos hlimit]
        rw [alone_succ]
        show alone _ i m (ProcessCall.step uc (p.call i) (.givingUp exc) w₁) = _
        unfold ProcessCall.step
        cases hdead : w₁.transact (moveToDeadLetter (p.call i).faults.deadLetter
            (p.call i).deadLetterRecord w₁.db) with
        | mk res w₂ =>
          cases res with
          | error e => exact alone_finished uc p i m (.error e) w₂
          | ok u => exact alone_finished uc p i m (.error ⟨.EnrichmentSubmissionError, exc.msg⟩) w₂
      · simp only [if_neg hlimit]
        exact alone_finished uc p i (m + 1) _ w₁

/-- The whole call: at most eight steps. -/
theorem alone_starting (w : World) :
    alone (fun i => (p.call i).step uc) i 8 (.starting, w) =
      (.finished ((p.call i).execute uc w).1, ((p.call i).execute uc w).2) := by
  -- the call's two reads come first
  have hread : alone (fun i => (p.call i).step uc) i 8 (.starting, w) =
      alone (fun i => (p.call i).step uc) i 6 ((p.call i).step uc
        (.numbered ((p.call i).attemptNumber w)) (w.issue (p.call i).correlationId)) := rfl
  have hdb : (p.call i).isDuplicate (w.issue (p.call i).correlationId) =
      (p.call i).isDuplicate w := rfl
  rw [hread]
  cases heval : evaluate uc.runtime (p.call i).order (p.call i).rules (p.call i).now with
  | error e =>
    simp only [ProcessCall.step, ProcessCall.execute, heval]
    exact alone_finished uc p i 6 (.error e) _
  | ok d =>
    obtain ⟨hash, hhash⟩ := computeHash_ok uc.runtime (p.call i).order d.enrichedFields
    cases hdup : (p.call i).isDuplicate w hash with
    | true =>
      simp only [ProcessCall.step, ProcessCall.execute, heval, hhash, World.db_issue,
        ProcessCall.getByOrderId_enter, hdb, hdup, if_true]
      exact alone_finished uc p i 6 _ _
    | false =>
      cases hmatch : d.hasMatches with
      | false =>
        simp only [ProcessCall.step, ProcessCall.execute, heval, hhash, World.db_issue,
          ProcessCall.getByOrderId_enter, hdb, hdup, hmatch, Bool.false_eq_true, if_false,
          Bool.not_false, if_true, ProcessCall.getNextAttemptNumber_enter]
        have hfault : (p.call i).faultOf .noMatch = (p.call i).faults.success := rfl
        rw [alone_recording uc p i 4, hfault, World.db_issue]
        cases (w.issue (p.call i).correlationId).transact (persistResult
          (p.call i).faults.success
          ((p.call i).noMatchRecord ((p.call i).attemptNumber w) hash) w.db) with
        | mk res w₁ =>
          cases res with
          | error e => exact alone_finished uc p i 4 (.error e) w₁
          | ok u => exact alone_finished uc p i 4 _ w₁
      | true =>
        have hsub : (p.call i).Submits uc w d hash := ⟨⟨heval, hhash⟩, hdup, hmatch⟩
        rw [(p.call i).execute_of_submits uc w hsub]
        simp only [ProcessCall.step, heval, hhash, hdb, hdup, hmatch, Bool.false_eq_true, if_false,
          Bool.not_true]
        rw [alone_succ]
        unfold ProcessCall.tryBlock
        simp only [ProcessCall.step]
        cases (p.call i).submitEnrichment uc d (w.issue (p.call i).correlationId) with
        | mk answer w₁ =>
          cases answer with
          | error exc => exact alone_failure uc p i ((p.call i).attemptNumber w) 2 hash exc w₁
          | ok u =>
            simp only
            have hfault : (p.call i).faultOf .success = (p.call i).faults.success := rfl
            rw [alone_recording uc p i 3, hfault]
            cases w₁.transact (persistResult (p.call i).faults.success
              ((p.call i).successRecord ((p.call i).attemptNumber w) hash d) w₁.db) with
            | mk res w₂ =>
              cases res with
              | error e => exact alone_failure uc p i ((p.call i).attemptNumber w) 0 hash e w₂
              | ok u => exact alone_finished uc p i 3 _ w₂

/-- **A call that has all turns** does what `execute` does. -/
theorem run_alone_eq_execute (w : World) :
    let s := (daemons uc p).run (bothStarting w) (List.replicate 8 i)
    s.locals i = .finished ((p.call i).execute uc w).1 ∧
      s.shared = ((p.call i).execute uc w).2 := by
  intro s
  have hrun : s.locals i = (alone (fun i => (p.call i).step uc) i 8 (.starting, w)).1 ∧
      s.shared = (alone (fun i => (p.call i).step uc) i 8 (.starting, w)).2 :=
    run_replicate (bothStarting w) i 8
  rw [alone_starting] at hrun
  exact hrun

end alone

/-! ## What a commit adds -/

/-- Only an insert of an attempt touches the attempts. -/
theorem attempts_apply {x : Write} {db db' : Database} (hx : ∀ a, x ≠ .insertAttempt a)
    (h : x.apply db = .ok db') : db'.attempts = db.attempts := by
  cases x with
  | insertAttempt a => exact absurd rfl (hx a)
  | insertProcessed p =>
    simp only [Write.apply] at h
    split at h <;> cases h
    rfl
  | insertOutbox m =>
    obtain ⟨_, t, _, rfl⟩ := apply_insertOutbox_ok_iff.mp h
    rfl
  | insertDeadLetter i =>
    simp only [Write.apply] at h
    split at h <;> cases h
    rfl
  | insertRule r =>
    simp only [Write.apply] at h
    split at h <;> cases h
    rfl
  | updateProcessed p => cases h; rfl
  | setPublished messageId at' => cases h; rfl
  | setFailed messageId => cases h; rfl
  | updateRule r => cases h; rfl

theorem attempts_applyAll {ws : List Write} {db db' : Database}
    (hws : ∀ x ∈ ws, ∀ a, x ≠ .insertAttempt a) (h : applyAll Write.apply ws db = .ok db') :
    db'.attempts = db.attempts := by
  induction ws generalizing db with
  | nil =>
    cases h
    rfl
  | cons x ws ih =>
    cases hx : x.apply db with
    | error e => simp [applyAll, hx] at h
    | ok db₁ =>
      rw [applyAll_cons_ok Write.apply hx] at h
      rw [ih (fun y hy => hws y (List.mem_cons_of_mem _ hy)) h,
        attempts_apply (hws x List.mem_cons_self) hx]

/-- What a session of a record holds beside its attempt. -/
theorem writes_persistSession (r : ResultRecord) (db : Database) :
    ∃ ws, (persistSession r db).writes = .insertAttempt r.attempt :: ws ∧
      ∀ x ∈ ws, ∀ a, x ≠ .insertAttempt a := by
  unfold persistSession ProcessedOrderRepository.save OutboxRepository.enqueue
    ProcessingAttemptRepository.save
  cases r.success with
  | false => exact ⟨_, rfl, by simp⟩
  | true =>
    simp only [if_true]
    split
    · exact ⟨_, rfl, by simp⟩
    · exact ⟨_, rfl, by simp⟩

/-- The commit of a record, on whatever is committed by then. -/
theorem commit_persistSession_cases (fault : Option PyErr) (r : ResultRecord) (db₀ db : Database) :
    (∃ e, DbSession.commit ⟨db, (persistSession r db₀).writes⟩ fault db = (.error e, db)) ∨
    (∃ db', DbSession.commit ⟨db, (persistSession r db₀).writes⟩ fault db = (.ok (), db') ∧
      db'.attempts = db.attempts ++ [r.attempt]) := by
  obtain ⟨ws, hws, hother⟩ := writes_persistSession r db₀
  unfold DbSession.commit
  simp only [hws]
  rcases UnitOfWork.commit_cases Write.apply fault (.insertAttempt r.attempt :: ws) db with
    ⟨e, he⟩ | ⟨db', hc, hok, _⟩
  · exact Or.inl ⟨e, he⟩
  · rw [applyAll_cons_ok Write.apply (applyWrite_insertAttempt r.attempt db)] at hok
    exact Or.inr ⟨db', hc, attempts_applyAll hother hok⟩

/-! ## What one step does -/

namespace DaemonPhase

/-- The number of the attempt that the call may still commit. -/
def pending : DaemonPhase → Option Nat
  | .starting => none
  | .numbered n => some n
  | .submitting n _ _ => some n
  | .recording r _ => some r.attemptNumber
  | .committing r _ _ => some r.attemptNumber
  | .givingUp _ => none
  | .finished _ => none

/-- The call has not read the processed row yet. -/
def Early : DaemonPhase → Prop
  | .starting => True
  | .numbered _ => True
  | _ => False

theorem Early.cases {p : DaemonPhase} (h : p.Early) : p = .starting ∨ ∃ n, p = .numbered n := by
  cases p with
  | starting => exact Or.inl rfl
  | numbered n => exact Or.inr ⟨n, rfl⟩
  | submitting => exact h.elim
  | recording => exact h.elim
  | committing => exact h.elim
  | givingUp => exact h.elim
  | finished => exact h.elim

/-- The attempt of the call is committed, or the call makes none. -/
def Settled (p : DaemonPhase) : Prop := p ≠ .starting ∧ p.pending = none

/-- The call has enriched its order, or found nothing to enrich, and has
    committed that. -/
def Succeeded (p : DaemonPhase) : Prop := ∃ id, p = .finished (.ok (true, id, false))

end DaemonPhase

/-- The records a call makes, with the submissions it has made by then. -/
inductive IsRecord (uc : ProcessOrderUseCase) (c : ProcessCall) :
    ResultRecord → Purpose → List Submission → Prop where
  | noMatch (n : Nat) (hash : String) (d : EnrichmentDecision) (hdec : c.Decides uc d hash) :
      IsRecord uc c (c.noMatchRecord n hash) .noMatch []
  | success (n : Nat) (hash : String) (d : EnrichmentDecision) (s : Submission)
      (hdec : c.Decides uc d hash) : IsRecord uc c (c.successRecord n hash d) .success [s]
  | failure (n : Nat) (hash : String) (exc : PyErr) (s : Submission) :
      IsRecord uc c (c.failureRecord n hash exc) (.failure exc) [s]

/-- How far a call has come: it has made the submissions `sent` and
    committed the attempts `recorded`. -/
inductive DaemonAt (uc : ProcessOrderUseCase) (c : ProcessCall) :
    DaemonPhase → List Submission → List ProcessingAttempt → Prop where
  | starting : DaemonAt uc c .starting [] []
  | numbered (n : Nat) : DaemonAt uc c (.numbered n) [] []
  | submitting (n : Nat) (hash : String) (d : EnrichmentDecision) (hdec : c.Decides uc d hash) :
      DaemonAt uc c (.submitting n hash d) [] []
  | recording (r : ResultRecord) (purpose : Purpose) (sent : List Submission)
      (hr : IsRecord uc c r purpose sent) : DaemonAt uc c (.recording r purpose) sent []
  | committing (r : ResultRecord) (purpose : Purpose) (sent : List Submission) (db : Database)
      (hr : IsRecord uc c r purpose sent) :
      DaemonAt uc c (.committing r purpose (persistSession r db).writes) sent []
  | givingUp (exc : PyErr) (sent : List Submission) (recorded : List ProcessingAttempt)
      (hsent : sent.length ≤ 1) (hrecorded : recorded.length ≤ 1) :
      DaemonAt uc c (.givingUp exc) sent recorded
  | finished (result : Except PyErr ProcessCall.Result) (sent : List Submission)
      (recorded : List ProcessingAttempt) (hsent : sent.length ≤ 1)
      (hrecorded : recorded.length ≤ 1) : DaemonAt uc c (.finished result) sent recorded

/-- What a step from `p` to `p'` does: it makes the submissions `sent` and
    commits the attempts `recorded`. -/
structure DaemonEffect (c : ProcessCall) (p p' : DaemonPhase) (w w' : World)
    (sent : List Submission) (recorded : List ProcessingAttempt) : Prop where
  submissions : w'.submissions = w.submissions ++ sent
  attempts : w'.db.attempts = w.db.attempts ++ recorded
  recorded : ∀ a ∈ recorded, p.pending = some a.attemptNumber ∧ a.orderId = c.order.orderId
  pending : ∀ n, p'.pending = some n →
    p.pending = some n ∨ (p = .starting ∧ n = c.attemptNumber w)
  started : p' ≠ .starting
  /-- The database changes only after the processed row has been read. -/
  early : p.Early → w'.db = w.db
  wasEarly : p'.Early → p.Early

/-- A step that neither submits nor commits. -/
theorem DaemonEffect.quiet {c : ProcessCall} {p p' : DaemonPhase} {w w' : World}
    (hsubmissions : w'.submissions = w.submissions) (hdb : w'.db = w.db)
    (hpending : ∀ n, p'.pending = some n →
      p.pending = some n ∨ (p = .starting ∧ n = c.attemptNumber w))
    (hstarted : p' ≠ .starting) (hearly : p'.Early → p.Early) : DaemonEffect c p p' w w' [] [] where
  submissions := by rw [hsubmissions, List.append_nil]
  attempts := by rw [hdb, List.append_nil]
  recorded _ ha := absurd ha List.not_mem_nil
  pending := hpending
  started := hstarted
  early _ := hdb
  wasEarly := hearly

/-- A step of a call that has read the processed row: no number comes up. -/
theorem DaemonEffect.late {c : ProcessCall} {p p' : DaemonPhase} {w w' : World}
    {sent : List Submission} {recorded : List ProcessingAttempt} (hp : ¬ p.Early) (hp' : ¬ p'.Early)
    (hsubmissions : w'.submissions = w.submissions ++ sent)
    (hattempts : w'.db.attempts = w.db.attempts ++ recorded)
    (hrecorded : ∀ a ∈ recorded, p.pending = some a.attemptNumber ∧ a.orderId = c.order.orderId)
    (hpending : p'.pending = p.pending ∨ p'.pending = none) :
    DaemonEffect c p p' w w' sent recorded where
  submissions := hsubmissions
  attempts := hattempts
  recorded := hrecorded
  pending n hn := by
    rcases hpending with hsame | hnone
    · rw [hsame] at hn
      exact Or.inl hn
    · rw [hnone] at hn
      cases hn
  started h := hp' (by rw [h]; trivial)
  early h := absurd h hp
  wasEarly h := absurd h hp'

/-- Such a step that commits nothing. -/
theorem DaemonEffect.late_unrecorded {c : ProcessCall} {p p' : DaemonPhase} {w w' : World}
    {sent : List Submission} (hp : ¬ p.Early) (hp' : ¬ p'.Early)
    (hsubmissions : w'.submissions = w.submissions ++ sent) (hattempts : w'.db.attempts = w.db.attempts)
    (hpending : p'.pending = p.pending ∨ p'.pending = none) :
    DaemonEffect c p p' w w' sent [] :=
  .late hp hp' hsubmissions (by rw [hattempts, List.append_nil])
    (fun _ ha => absurd ha List.not_mem_nil) hpending

theorem IsRecord.length_sent {uc : ProcessOrderUseCase} {c : ProcessCall} {r : ResultRecord}
    {purpose : Purpose} {sent : List Submission} (h : IsRecord uc c r purpose sent) :
    sent.length ≤ 1 := by
  cases h with
  | noMatch => exact Nat.zero_le 1
  | success => exact Nat.le_refl 1
  | failure => exact Nat.le_refl 1

theorem IsRecord.orderId_eq {uc : ProcessOrderUseCase} {c : ProcessCall} {r : ResultRecord}
    {purpose : Purpose} {sent : List Submission} (h : IsRecord uc c r purpose sent) :
    r.attempt.orderId = c.order.orderId := by
  cases h <;> rfl

/-- The step in which the call evaluates its rules and reads the processed
    row. -/
theorem daemonStep_numbered (uc : ProcessOrderUseCase) (c : ProcessCall) (n : Nat) (w : World) :
    DaemonAt uc c (c.step uc (.numbered n) w).1 [] [] ∧
      DaemonEffect c (.numbered n) (c.step uc (.numbered n) w).1 w
        (c.step uc (.numbered n) w).2 [] [] := by
  have hfinished : ∀ result, DaemonAt uc c (.finished result) [] [] ∧
      DaemonEffect c (.numbered n) (.finished result) w w [] [] := fun result =>
    ⟨.finished result [] [] (Nat.zero_le 1) (Nat.zero_le 1), .quiet rfl rfl nofun nofun nofun⟩
  unfold ProcessCall.step
  cases heval : evaluate uc.runtime c.order c.rules c.now with
  | error e => exact hfinished (.error e)
  | ok d =>
    cases hhash : computeHash uc.runtime c.order d.enrichedFields with
    | error e => simpa only [hhash] using hfinished (.error e)
    | ok hash =>
      simp only [hhash]
      cases hdup : c.isDuplicate w hash with
      | true => exact hfinished (.ok (true, c.correlationId, true))
      | false =>
        cases hmatch : d.hasMatches with
        | true =>
          exact ⟨.submitting n hash d ⟨heval, hhash⟩,
            .quiet rfl rfl (fun m hm => Or.inl hm) nofun nofun⟩
        | false =>
          exact ⟨.recording _ _ [] (.noMatch n hash d ⟨heval, hhash⟩),
            .quiet rfl rfl (fun m hm => Or.inl hm) nofun nofun⟩

/-- The step in which the call submits. -/
theorem daemonStep_submitting {uc : ProcessOrderUseCase} {c : ProcessCall} (n : Nat) (hash : String)
    {d : EnrichmentDecision} (hdec : c.Decides uc d hash) (w : World) :
    ∃ sent, DaemonAt uc c (c.step uc (.submitting n hash d) w).1 sent [] ∧
      DaemonEffect c (.submitting n hash d) (c.step uc (.submitting n hash d) w).1 w
        (c.step uc (.submitting n hash d) w).2 sent [] := by
  cases hanswer : c.answer uc d with
  | error exc =>
    have hstep : c.step uc (.submitting n hash d) w =
        (.recording (c.failureRecord n hash exc) (.failure exc),
          { w with submissions := w.submissions ++
            [⟨c.order.orderId, c.payload uc d, c.correlationId, false⟩] }) := by
      simp only [ProcessCall.step, ProcessCall.submitEnrichment, hanswer]
    rw [hstep]
    exact ⟨_, .recording _ _ _ (.failure n hash exc _),
      .late_unrecorded not_false not_false rfl rfl (Or.inl rfl)⟩
  | ok u =>
    have hstep : c.step uc (.submitting n hash d) w =
        (.recording (c.successRecord n hash d) .success,
          { w with submissions := w.submissions ++
            [⟨c.order.orderId, c.payload uc d, c.correlationId, true⟩] }) := by
      simp only [ProcessCall.step, ProcessCall.submitEnrichment, hanswer]
    rw [hstep]
    exact ⟨_, .recording _ _ _ (.success n hash d _ hdec),
      .late_unrecorded not_false not_false rfl rfl (Or.inl rfl)⟩

/-- Where a call is after a commit: the attempt of a commit that went well
    is its only one. -/
theorem afterCommit_at {uc : ProcessOrderUseCase} {c : ProcessCall} {r : ResultRecord}
    {purpose : Purpose} {sent : List Submission} (hr : IsRecord uc c r purpose sent) :
    ¬ (c.afterCommit uc r purpose (.ok ())).Early ∧
      (c.afterCommit uc r purpose (.ok ())).pending = none ∧
      DaemonAt uc c (c.afterCommit uc r purpose (.ok ())) sent [r.attempt] := by
  cases hr with
  | noMatch n hash d hdec =>
    exact ⟨not_false, rfl, .finished _ _ _ (Nat.zero_le 1) (Nat.le_refl 1)⟩
  | success n hash d s hdec =>
    exact ⟨not_false, rfl, .finished _ _ _ (Nat.le_refl 1) (Nat.le_refl 1)⟩
  | failure n hash exc s =>
    show ¬ (if uc.maxProcessingAttempts ≤ n then DaemonPhase.givingUp exc
        else .finished (.error ⟨.EnrichmentSubmissionError, exc.msg⟩)).Early ∧
      (if uc.maxProcessingAttempts ≤ n then DaemonPhase.givingUp exc
        else .finished (.error ⟨.EnrichmentSubmissionError, exc.msg⟩)).pending = none ∧
      DaemonAt uc c (if uc.maxProcessingAttempts ≤ n then DaemonPhase.givingUp exc
        else .finished (.error ⟨.EnrichmentSubmissionError, exc.msg⟩)) [s] _
    split
    · exact ⟨not_false, rfl, .givingUp _ _ _ (Nat.le_refl 1) (Nat.le_refl 1)⟩
    · exact ⟨not_false, rfl, .finished _ _ _ (Nat.le_refl 1) (Nat.le_refl 1)⟩

/-- Where a call is after a commit that was refused: a success is followed
    by the record of a failure under the same number. -/
theorem afterCommit_refused_at {uc : ProcessOrderUseCase} {c : ProcessCall} {r : ResultRecord}
    {purpose : Purpose} {sent : List Submission} (hr : IsRecord uc c r purpose sent) (e : PyErr) :
    ¬ (c.afterCommit uc r purpose (.error e)).Early ∧
      ((c.afterCommit uc r purpose (.error e)).pending = some r.attemptNumber ∨
        (c.afterCommit uc r purpose (.error e)).pending = none) ∧
      DaemonAt uc c (c.afterCommit uc r purpose (.error e)) sent [] := by
  cases hr with
  | noMatch n hash d hdec =>
    exact ⟨not_false, Or.inr rfl, .finished _ _ _ (Nat.zero_le 1) (Nat.zero_le 1)⟩
  | success n hash d s hdec =>
    exact ⟨not_false, Or.inl rfl, .recording _ _ _ (.failure n hash e s)⟩
  | failure n hash exc s =>
    exact ⟨not_false, Or.inr rfl, .finished _ _ _ (Nat.le_refl 1) (Nat.zero_le 1)⟩

/-- The step in which the call commits a record. -/
theorem daemonStep_committing {uc : ProcessOrderUseCase} {c : ProcessCall} {r : ResultRecord}
    {purpose : Purpose} {sent : List Submission} (hr : IsRecord uc c r purpose sent) (db : Database)
    (w : World) :
    let p : DaemonPhase := .committing r purpose (persistSession r db).writes
    ∃ recorded, DaemonAt uc c (c.step uc p w).1 sent recorded ∧
      DaemonEffect c p (c.step uc p w).1 w (c.step uc p w).2 [] recorded := by
  intro p
  unfold p ProcessCall.step World.transact
  rcases commit_persistSession_cases (c.faultOf purpose) r db w.db with
    ⟨e, he⟩ | ⟨db', hok, hattempts⟩
  · simp only [he]
    obtain ⟨hlate, hpending, hat⟩ := afterCommit_refused_at hr e
    exact ⟨[], hat, .late_unrecorded not_false hlate (List.append_nil _).symm rfl hpending⟩
  · simp only [hok]
    obtain ⟨hlate, hnone, hat⟩ := afterCommit_at hr
    refine ⟨[r.attempt], hat, .late not_false hlate (List.append_nil _).symm hattempts ?_
      (Or.inr hnone)⟩
    intro a ha
    rw [List.mem_singleton.mp ha]
    exact ⟨rfl, hr.orderId_eq⟩

/-- The step in which the call moves its order to the dead letters. -/
theorem daemonStep_givingUp {uc : ProcessOrderUseCase} {c : ProcessCall} (exc : PyErr)
    {sent : List Submission} {recorded : List ProcessingAttempt} (hsent : sent.length ≤ 1)
    (hrecorded : recorded.length ≤ 1) (w : World) :
    DaemonAt uc c (c.step uc (.givingUp exc) w).1 sent recorded ∧
      DaemonEffect c (.givingUp exc) (c.step uc (.givingUp exc) w).1 w
        (c.step uc (.givingUp exc) w).2 [] [] := by
  unfold ProcessCall.step World.transact
  rcases moveToDeadLetter_cases c.faults.deadLetter c.deadLetterRecord w.db with
    ⟨e, he⟩ | ⟨db', hok, hdead, _⟩
  · simp only [he]
    exact ⟨.finished _ _ _ hsent hrecorded,
      .late_unrecorded not_false not_false (List.append_nil _).symm rfl (Or.inr rfl)⟩
  · simp only [hok]
    exact ⟨.finished _ _ _ hsent hrecorded,
      .late_unrecorded not_false not_false (List.append_nil _).symm hdead.attempts (Or.inr rfl)⟩

/-- **Every step** of a call leads on, and does what `DaemonEffect` says. -/
theorem daemonStep {uc : ProcessOrderUseCase} {c : ProcessCall} {p : DaemonPhase}
    {sent : List Submission} {recorded : List ProcessingAttempt} (h : DaemonAt uc c p sent recorded)
    (w : World) :
    ∃ sent' recorded', DaemonAt uc c (c.step uc p w).1 (sent ++ sent') (recorded ++ recorded') ∧
      DaemonEffect c p (c.step uc p w).1 w (c.step uc p w).2 sent' recorded' := by
  cases h with
  | starting =>
    refine ⟨[], [], .numbered (c.attemptNumber w), .quiet rfl rfl ?_ DaemonPhase.noConfusion
      fun _ => trivial⟩
    intro n hn
    exact Or.inr ⟨rfl, (Option.some.inj hn).symm⟩
  | numbered n => exact ⟨[], [], daemonStep_numbered uc c n w⟩
  | submitting n hash d hdec =>
    obtain ⟨sent', hat, heffect⟩ := daemonStep_submitting n hash hdec w
    exact ⟨sent', [], hat, heffect⟩
  | recording r purpose sent hr =>
    refine ⟨[], [], ?_, .late_unrecorded not_false not_false (List.append_nil _).symm rfl
      (Or.inl rfl)⟩
    rw [List.append_nil]
    exact .committing r purpose sent w.db hr
  | committing r purpose sent db hr =>
    obtain ⟨recorded', hat, heffect⟩ := daemonStep_committing hr db w
    refine ⟨[], recorded', ?_, heffect⟩
    rw [List.append_nil]
    exact hat
  | givingUp exc sent recorded hsent hrecorded =>
    obtain ⟨hat, heffect⟩ := daemonStep_givingUp exc hsent hrecorded w
    refine ⟨[], [], ?_, heffect⟩
    rw [List.append_nil, List.append_nil]
    exact hat
  | finished result sent recorded hsent hrecorded =>
    refine ⟨[], [], ?_, .late_unrecorded not_false not_false (List.append_nil _).symm rfl
      (Or.inr rfl)⟩
    rw [List.append_nil, List.append_nil]
    exact .finished result sent recorded hsent hrecorded

/-- A session is opened on what is committed. -/
theorem committing_of_step {uc : ProcessOrderUseCase} {c : ProcessCall} {p : DaemonPhase}
    {w : World} {r : ResultRecord} {purpose : Purpose} {writes : List Write}
    (h : (c.step uc p w).1 = .committing r purpose writes) :
    writes = (persistSession r w.db).writes ∧ (c.step uc p w).2 = w := by
  cases p with
  | starting => cases h
  | numbered n =>
    simp only [ProcessCall.step] at h
    repeat' split at h
    all_goals cases h
  | submitting n hash d =>
    simp only [ProcessCall.step] at h
    split at h <;> cases h
  | recording r' purpose' =>
    cases h
    exact ⟨rfl, rfl⟩
  | committing r' purpose' writes' =>
    have hafter : ∀ res, c.afterCommit uc r' purpose' res ≠ .committing r purpose writes := by
      intro res
      unfold ProcessCall.afterCommit
      repeat' split
      all_goals exact nofun
    exact absurd h (hafter _)
  | givingUp exc =>
    simp only [ProcessCall.step] at h
    split at h <;> cases h
  | finished result => cases h

/-- A call succeeds when it commits a success. -/
theorem succeeded_of_step {uc : ProcessOrderUseCase} {c : ProcessCall} {p : DaemonPhase}
    {sent : List Submission} {recorded : List ProcessingAttempt} (hat : DaemonAt uc c p sent recorded)
    {w : World} (h : (c.step uc p w).1.Succeeded) :
    (p.Succeeded ∧ (c.step uc p w).2 = w) ∨
      ∃ r purpose writes d, p = .committing r purpose writes ∧ r.success = true ∧
        r.orderId = c.order.orderId ∧ c.Decides uc d r.enrichmentHash ∧
        DbSession.commit ⟨w.db, writes⟩ (c.faultOf purpose) w.db =
          (.ok (), (c.step uc p w).2.db) := by
  obtain ⟨id, hid⟩ := h
  cases hat with
  | starting => cases hid
  | numbered n =>
    simp only [ProcessCall.step] at hid
    repeat' split at hid
    all_goals cases hid
  | submitting n hash d hdec =>
    simp only [ProcessCall.step] at hid
    split at hid <;> cases hid
  | recording r purpose sent hr => cases hid
  | committing r purpose sent db hr =>
    right
    unfold ProcessCall.step World.transact at hid ⊢
    rcases hcommit : DbSession.commit ⟨w.db, (persistSession r db).writes⟩ (c.faultOf purpose) w.db
      with ⟨e | u, db'⟩
    · simp only [hcommit] at hid
      cases hr <;> cases hid
    · cases hr with
      | noMatch n hash d hdec => exact ⟨_, _, _, d, rfl, rfl, rfl, hdec, by simp only [hcommit]⟩
      | success n hash d s hdec => exact ⟨_, _, _, d, rfl, rfl, rfl, hdec, by simp only [hcommit]⟩
      | failure n hash exc s =>
        simp only [hcommit, ProcessCall.afterCommit] at hid
        split at hid <;> cases hid
  | givingUp exc =>
    simp only [ProcessCall.step] at hid
    split at hid <;> cases hid
  | finished result => exact Or.inl ⟨⟨id, hid⟩, rfl⟩

/-! ## What holds in every interleaving -/

/-- What holds of two calls that started on `w₀`, at any point: the store
    and the external system have what the two have done. -/
structure Accounted (uc : ProcessOrderUseCase) (p : TwoCalls) (w₀ : World)
    (s : Config Bool World DaemonPhase) (sent : Bool → List Submission)
    (recorded : Bool → List ProcessingAttempt) : Prop where
  reached : ∀ i, DaemonAt uc (p.call i) (s.locals i) (sent i) (recorded i)
  submissions : ∃ new, s.shared.submissions = w₀.submissions ++ new ∧
    new.Perm (sent false ++ sent true)
  attempts : ∃ new, s.shared.db.attempts = w₀.db.attempts ++ new ∧
    new.Perm (recorded false ++ recorded true)
  orders : ∀ i, ∀ a ∈ recorded i, a.orderId = p.orderId

theorem accounted_bothStarting (uc : ProcessOrderUseCase) (p : TwoCalls) (w : World) :
    Accounted uc p w (bothStarting w) (fun _ => []) (fun _ => []) where
  reached _ := .starting
  submissions := ⟨[], (List.append_nil _).symm, .refl _⟩
  attempts := ⟨[], (List.append_nil _).symm, .refl _⟩
  orders _ _ ha := absurd ha List.not_mem_nil

variable {uc : ProcessOrderUseCase} {p : TwoCalls} {w₀ : World}
  {s : Config Bool World DaemonPhase} {sent : Bool → List Submission}
  {recorded : Bool → List ProcessingAttempt}

/-- The step of a call, in an interleaving. -/
theorem Accounted.keep (h : Accounted uc p w₀ s sent recorded) (i : Bool) :
    ∃ sent' recorded', DaemonEffect (p.call i) (s.locals i)
        ((p.call i).step uc (s.locals i) s.shared).1 s.shared
        ((p.call i).step uc (s.locals i) s.shared).2 sent' recorded' ∧
      Accounted uc p w₀ (advance (fun i => (p.call i).step uc) s i)
        (Function.update sent i (sent i ++ sent'))
        (Function.update recorded i (recorded i ++ recorded')) := by
  obtain ⟨sent', recorded', hat, heffect⟩ := daemonStep (h.reached i) s.shared
  refine ⟨sent', recorded', heffect, ?_, ?_, ?_, ?_⟩
  · intro j
    by_cases hj : j = i
    · subst hj
      rw [locals_advance_self, Function.update_self, Function.update_self]
      exact hat
    · rw [locals_advance_of_ne s hj, Function.update_of_ne hj, Function.update_of_ne hj]
      exact h.reached j
  · obtain ⟨new, hnew, hperm⟩ := h.submissions
    refine ⟨new ++ sent', ?_, perm_update_append hperm i sent'⟩
    rw [shared_advance, heffect.submissions, hnew, List.append_assoc]
  · obtain ⟨new, hnew, hperm⟩ := h.attempts
    refine ⟨new ++ recorded', ?_, perm_update_append hperm i recorded'⟩
    rw [shared_advance, heffect.attempts, hnew, List.append_assoc]
  · intro j a ha
    by_cases hj : j = i
    · subst hj
      rw [Function.update_self, List.mem_append] at ha
      rcases ha with ha | ha
      · exact h.orders j a ha
      · rw [(heffect.recorded a ha).2, p.sameOrder]
    · rw [Function.update_of_ne hj] at ha
      exact h.orders j a ha

/-! ## Attempt numbers -/

theorem DaemonAt.length_sent {c : ProcessCall} {q : DaemonPhase} {sent : List Submission}
    {recorded : List ProcessingAttempt} (h : DaemonAt uc c q sent recorded) : sent.length ≤ 1 := by
  cases h with
  | starting => exact Nat.zero_le 1
  | numbered => exact Nat.zero_le 1
  | submitting => exact Nat.zero_le 1
  | recording _ _ _ hr => exact hr.length_sent
  | committing _ _ _ _ hr => exact hr.length_sent
  | givingUp _ _ _ hsent => exact hsent
  | finished _ _ _ hsent => exact hsent

theorem DaemonAt.length_recorded {c : ProcessCall} {q : DaemonPhase} {sent : List Submission}
    {recorded : List ProcessingAttempt} (h : DaemonAt uc c q sent recorded) :
    recorded.length ≤ 1 := by
  cases h with
  | starting => exact Nat.zero_le 1
  | numbered => exact Nat.zero_le 1
  | submitting => exact Nat.zero_le 1
  | recording => exact Nat.zero_le 1
  | committing => exact Nat.zero_le 1
  | givingUp _ _ _ _ hrecorded => exact hrecorded
  | finished _ _ _ _ hrecorded => exact hrecorded

theorem DaemonAt.nil_of_early {c : ProcessCall} {q : DaemonPhase} {sent : List Submission}
    {recorded : List ProcessingAttempt} (h : DaemonAt uc c q sent recorded) (hq : q.Early) :
    sent = [] ∧ recorded = [] := by
  rcases hq.cases with rfl | ⟨n, rfl⟩
  · cases h
    exact ⟨rfl, rfl⟩
  · cases h
    exact ⟨rfl, rfl⟩

/-- A call whose attempt is committed commits no other. -/
theorem DaemonEffect.settled {c : ProcessCall} {q q' : DaemonPhase} {w w' : World}
    {sent : List Submission} {recorded : List ProcessingAttempt}
    (h : DaemonEffect c q q' w w' sent recorded) (hq : q.Settled) :
    recorded = [] ∧ q'.Settled := by
  obtain ⟨hstarted, hnone⟩ := hq
  constructor
  · refine List.eq_nil_iff_forall_not_mem.mpr ?_
    intro a ha
    have hpending := (h.recorded a ha).1
    rw [hnone] at hpending
    cases hpending
  · refine ⟨h.started, ?_⟩
    cases hpending : q'.pending with
    | none => rfl
    | some n =>
      rcases h.pending n hpending with hold | ⟨hstart, _⟩
      · rw [hnone] at hold
        cases hold
      · exact absurd hstart hstarted

/-- The attempts of call `j` come after those of call `i`. -/
structure Behind (s : Config Bool World DaemonPhase) (recorded : Bool → List ProcessingAttempt)
    (i j : Bool) : Prop where
  settled : (s.locals i).Settled
  pending : ∀ n, (s.locals j).pending = some n → ∀ a ∈ recorded i, a.attemptNumber < n
  recorded : ∀ b ∈ recorded j, ∀ a ∈ recorded i, a.attemptNumber < b.attemptNumber

theorem Accounted.mem_attempts (h : Accounted uc p w₀ s sent recorded) {i : Bool}
    {a : ProcessingAttempt} (ha : a ∈ recorded i) : a ∈ s.shared.db.attempts := by
  obtain ⟨new, hnew, hperm⟩ := h.attempts
  rw [hnew, List.mem_append, hperm.mem_iff, List.mem_append]
  cases i with
  | false => exact Or.inr (Or.inl ha)
  | true => exact Or.inr (Or.inr ha)

/-- A call that starts when the other one has committed stays behind it. -/
theorem Accounted.behind_run (h : Accounted uc p w₀ s sent recorded) {i j : Bool} (hij : j ≠ i)
    (hb : Behind s recorded i j) (is : List Bool) :
    ∃ sent recorded, Accounted uc p w₀ ((daemons uc p).run s is) sent recorded ∧
      Behind ((daemons uc p).run s is) recorded i j := by
  let I : Config Bool World DaemonPhase → Prop := fun s =>
    ∃ sent recorded, Accounted uc p w₀ s sent recorded ∧ Behind s recorded i j
  have hstep : ∀ s k, I s → I (advance (fun i => (p.call i).step uc) s k) := by
    intro s k hI
    obtain ⟨sent, recorded, h, hb⟩ := hI
    obtain ⟨sent', recorded', heffect, hkeep⟩ := h.keep k
    refine ⟨_, _, hkeep, ?_⟩
    by_cases hk : k = i
    · -- the one that is ahead has nothing more to commit
      subst hk
      obtain ⟨hnil, hsettled⟩ := heffect.settled hb.settled
      subst hnil
      rw [List.append_nil, Function.update_eq_self]
      refine ⟨by rw [locals_advance_self]; exact hsettled, ?_, hb.recorded⟩
      rw [locals_advance_of_ne s hij]
      exact hb.pending
    · have hkj : k = j := by
        rw [Bool.eq_not_of_ne hk, Bool.eq_not_of_ne hij]
      subst hkj
      refine ⟨?_, ?_, ?_⟩
      · rw [locals_advance_of_ne s hij.symm]
        exact hb.settled
      · intro n hn a ha
        rw [locals_advance_self] at hn
        rw [Function.update_of_ne hij.symm] at ha
        rcases heffect.pending n hn with hold | ⟨_, hnumber⟩
        · exact hb.pending n hold a ha
        · -- the number it has read exceeds those of all attempts of the order
          have hlt := lt_getNextAttemptNumber (s := Session.enter s.shared.db) (h.mem_attempts ha)
          rw [h.orders i a ha, ← p.sameOrder k] at hlt
          rw [hnumber]
          exact hlt
      · intro b hb' a ha
        rw [Function.update_of_ne hij.symm] at ha
        rw [Function.update_self, List.mem_append] at hb'
        rcases hb' with hb' | hb'
        · exact hb.recorded b hb' a ha
        · exact hb.pending _ (heffect.recorded b hb').1 a ha
  exact run_invariant hstep ⟨sent, recorded, h, hb⟩ is

theorem nodup_append_of_lt {as bs : List ProcessingAttempt} (has : as.length ≤ 1)
    (hbs : bs.length ≤ 1) (hlt : ∀ b ∈ bs, ∀ a ∈ as, a.attemptNumber < b.attemptNumber) :
    ((as ++ bs).map (·.attemptNumber)).Nodup := by
  have hone : ∀ l : List ProcessingAttempt, l.length ≤ 1 →
      (l.map (·.attemptNumber)).Nodup := by
    intro l hl
    cases l with
    | nil => exact List.nodup_nil
    | cons a l =>
      rw [List.length_cons] at hl
      have hnil : l = [] := List.eq_nil_of_length_eq_zero (by omega)
      rw [hnil]
      exact List.nodup_singleton _
  rw [List.map_append, List.nodup_append]
  refine ⟨hone as has, hone bs hbs, ?_⟩
  intro n hn m hm heq
  obtain ⟨a, ha, rfl⟩ := List.mem_map.mp hn
  obtain ⟨b, hb, rfl⟩ := List.mem_map.mp hm
  have := hlt b hb a ha
  omega

/-- The attempts that have been committed since `w₀`. -/
def newAttempts (w₀ : World) (s : Config Bool World DaemonPhase) : List ProcessingAttempt :=
  s.shared.db.attempts.drop w₀.db.attempts.length

/-- The submissions that have been made since `w₀`. -/
def newSubmissions (w₀ : World) (s : Config Bool World DaemonPhase) : List Submission :=
  s.shared.submissions.drop w₀.submissions.length

theorem Accounted.newAttempts_perm (h : Accounted uc p w₀ s sent recorded) :
    (newAttempts w₀ s).Perm (recorded false ++ recorded true) := by
  obtain ⟨new, hnew, hperm⟩ := h.attempts
  unfold newAttempts
  rw [hnew, List.drop_left]
  exact hperm

theorem Accounted.newSubmissions_perm (h : Accounted uc p w₀ s sent recorded) :
    (newSubmissions w₀ s).Perm (sent false ++ sent true) := by
  obtain ⟨new, hnew, hperm⟩ := h.submissions
  unfold newSubmissions
  rw [hnew, List.drop_left]
  exact hperm

theorem Accounted.nodup_numbers (h : Accounted uc p w₀ s sent recorded) {i : Bool}
    (hb : Behind s recorded i (!i)) : ((newAttempts w₀ s).map (·.attemptNumber)).Nodup := by
  have hnodup := nodup_append_of_lt (h.reached i).length_recorded (h.reached !i).length_recorded
    hb.recorded
  rw [(h.newAttempts_perm.map _).nodup_iff]
  cases i with
  | false => exact hnodup
  | true => exact ((List.perm_append_comm.map _).nodup_iff).mp hnodup

/-! ## Duplicates -/

/-- The calls come to the same `updated_at` and the same enriched fields,
    if both come to a decision. -/
def TwoCalls.SameContent (p : TwoCalls) (uc : ProcessOrderUseCase) : Prop :=
  ∀ i d d', evaluate uc.runtime (p.call i).order (p.call i).rules (p.call i).now = .ok d →
    evaluate uc.runtime (p.call !i).order (p.call !i).rules (p.call !i).now = .ok d' →
    (p.call i).order.updatedAt.isoformat = (p.call !i).order.updatedAt.isoformat ∧
      d.enrichedFields.toVal.dumps = d'.enrichedFields.toVal.dumps

/-- One content has one hash. -/
theorem TwoCalls.SameContent.hash_eq (h : p.SameContent uc) {i : Bool} {d d' : EnrichmentDecision}
    {hash hash' : String} (hdec : (p.call i).Decides uc d hash)
    (hdec' : (p.call !i).Decides uc d' hash') : hash = hash' := by
  obtain ⟨hupdated, hfields⟩ := h i d d' hdec.evaluated hdec'.evaluated
  obtain ⟨t, ht⟩ := d.enrichedFields.dumps_ok
  have ht' := hfields.symm.trans ht
  have hid : (p.call i).order.orderId = (p.call !i).order.orderId := by
    rw [p.sameOrder, p.sameOrder]
  have hhash := hdec.hashed
  rw [computeHash_text ht, hid, hupdated, ← computeHash_text ht', hdec'.hashed] at hhash
  exact (Except.ok.inj hhash).symm

/-- While one call has not read the processed row, the other one has the
    store to itself. -/
structure Undisturbed (uc : ProcessOrderUseCase) (p : TwoCalls)
    (s : Config Bool World DaemonPhase) : Prop where
  /-- The session it has opened is up to date. -/
  current : ∀ i, (s.locals !i).Early → ∀ r purpose writes,
    s.locals i = .committing r purpose writes →
      writes = (persistSession r s.shared.db).writes
  /-- The row it has committed is there. -/
  stored : ∀ i, (s.locals !i).Early → (s.locals i).Succeeded → ∃ d hash row,
    (p.call i).Decides uc d hash ∧ s.shared.db.processedOrders.find? p.orderId = some row ∧
      row.enrichmentHash = hash

theorem undisturbed_bothStarting (uc : ProcessOrderUseCase) (p : TwoCalls) (w : World) :
    Undisturbed uc p (bothStarting w) where
  current _ _ _ _ _ := nofun
  stored _ _ h := by obtain ⟨_, h⟩ := h; cases h

/-- One step. -/
theorem Undisturbed.keep (hu : Undisturbed uc p s) (h : Accounted uc p w₀ s sent recorded)
    (i : Bool) : Undisturbed uc p (advance (fun i => (p.call i).step uc) s i) := by
  obtain ⟨_, _, heffect, _⟩ := h.keep i
  constructor
  · intro j hearly r purpose writes hcommitting
    by_cases hj : j = i
    · subst hj
      rw [locals_advance_self] at hcommitting
      obtain ⟨hwrites, hw⟩ := committing_of_step hcommitting
      rw [shared_advance, hw]
      exact hwrites
    · have hi : (!j) = i := (Bool.eq_not_of_ne (Ne.symm hj)).symm
      rw [locals_advance_of_ne s hj] at hcommitting
      rw [hi, locals_advance_self] at hearly
      have hold := heffect.wasEarly hearly
      rw [shared_advance, heffect.early hold]
      exact hu.current j (by rw [hi]; exact hold) r purpose writes hcommitting
  · intro j hearly hsucceeded
    by_cases hj : j = i
    · subst hj
      rw [locals_advance_self] at hsucceeded
      rw [locals_advance_of_ne s (Bool.not_ne_self j)] at hearly
      rcases succeeded_of_step (h.reached j) hsucceeded with
        ⟨hold, hw⟩ | ⟨r, purpose, writes, d, hphase, hsuccess, hid, hdec, hcommit⟩
      · rw [shared_advance, hw]
        exact hu.stored j hearly hold
      · -- nobody has touched the store since the session was opened
        have hwrites := hu.current j hearly r purpose writes hphase
        subst hwrites
        have hpersist : persistResult ((p.call j).faultOf purpose) r s.shared.db =
            (.ok (), ((p.call j).step uc (s.locals j) s.shared).2.db) := hcommit
        rcases persistResult_cases ((p.call j).faultOf purpose) r s.shared.db with
          ⟨e, he, _⟩ | ⟨db, hok, hrec, _⟩
        · rw [he] at hpersist
          cases hpersist
        · rw [hok] at hpersist
          have hdb := (Prod.mk.inj hpersist).2
          refine ⟨d, r.enrichmentHash, r.processed, hdec, ?_, rfl⟩
          have hkey : r.processed.orderId = p.orderId := hid.trans (p.sameOrder j)
          rw [shared_advance, ← hdb, hrec.processedOrders, if_pos hsuccess, ← hkey]
          exact Table.find?_upsert_self _ _
    · have hi : (!j) = i := (Bool.eq_not_of_ne (Ne.symm hj)).symm
      rw [locals_advance_of_ne s hj] at hsucceeded
      rw [hi, locals_advance_self] at hearly
      have hold := heffect.wasEarly hearly
      rw [shared_advance, heffect.early hold]
      exact hu.stored j (by rw [hi]; exact hold) hsucceeded

/-- A call that has not read the processed row, when the row has its hash. -/
theorem early_step {c : ProcessCall} {q : DaemonPhase} {w : World} (hq : q.Early)
    (hdup : ∀ d hash, c.Decides uc d hash → c.isDuplicate w hash = true) :
    ((c.step uc q w).1.Early ∨ ∃ result, (c.step uc q w).1 = .finished result) ∧
      (c.step uc q w).2.submissions = w.submissions := by
  rcases hq.cases with rfl | ⟨n, rfl⟩
  · exact ⟨Or.inl trivial, rfl⟩
  · simp only [ProcessCall.step]
    cases heval : evaluate uc.runtime c.order c.rules c.now with
    | error e => exact ⟨Or.inr ⟨_, rfl⟩, rfl⟩
    | ok d =>
      obtain ⟨hash, hhash⟩ := computeHash_ok uc.runtime c.order d.enrichedFields
      simp only [hhash, hdup d hash ⟨heval, hhash⟩, if_true]
      exact ⟨Or.inr ⟨_, rfl⟩, trivial⟩

theorem ProcessCall.step_of_succeeded {c : ProcessCall} {q : DaemonPhase} {w : World}
    (h : q.Succeeded) : c.step uc q w = (q, w) := by
  obtain ⟨id, rfl⟩ := h
  rfl

theorem DaemonEffect.sent_eq_nil {c : ProcessCall} {q q' : DaemonPhase} {w w' : World}
    {sent : List Submission} {recorded : List ProcessingAttempt}
    (h : DaemonEffect c q q' w w' sent recorded) (hw : w'.submissions = w.submissions) :
    sent = [] := by
  have hsub := h.submissions
  rw [hw] at hsub
  exact List.self_eq_append_right.mp hsub

/-- A call that reads the processed row when the other one has committed
    the same content submits nothing. -/
theorem Accounted.silent_run (h : Accounted uc p w₀ s sent recorded) (hu : Undisturbed uc p s)
    {i : Bool} (hsucceeded : (s.locals i).Succeeded) (hearly : (s.locals !i).Early)
    (hsame : p.SameContent uc) (is : List Bool) :
    ∃ sent recorded, Accounted uc p w₀ ((daemons uc p).run s is) sent recorded ∧
      sent (!i) = [] := by
  let I : Config Bool World DaemonPhase → Prop := fun s =>
    ∃ sent recorded, Accounted uc p w₀ s sent recorded ∧ Undisturbed uc p s ∧
      (s.locals i).Succeeded ∧ sent (!i) = [] ∧
      ((s.locals !i).Early ∨ ∃ result, s.locals (!i) = .finished result)
  have hstart : sent (!i) = [] := ((h.reached !i).nil_of_early hearly).1
  have hstep : ∀ s k, I s → I (advance (fun i => (p.call i).step uc) s k) := by
    intro s k hI
    obtain ⟨sent, recorded, h, hu, hsucceeded, hnil, hother⟩ := hI
    obtain ⟨sent', recorded', heffect, hkeep⟩ := h.keep k
    refine ⟨_, _, hkeep, hu.keep h k, ?_⟩
    by_cases hk : k = i
    · subst hk
      rw [locals_advance_self, locals_advance_of_ne s (Bool.not_ne_self k),
        Function.update_of_ne (Bool.not_ne_self k), ProcessCall.step_of_succeeded hsucceeded]
      exact ⟨hsucceeded, hnil, hother⟩
    · have hki : k = !i := Bool.eq_not_of_ne hk
      subst hki
      rw [locals_advance_self, locals_advance_of_ne s (Bool.not_ne_self i).symm,
        Function.update_self, hnil, List.nil_append]
      refine ⟨hsucceeded, ?_⟩
      rcases hother with hearly | ⟨result, hresult⟩
      · -- its hash is the one that is stored
        obtain ⟨d, hash, row, hdec, hrow, hhash⟩ := hu.stored i hearly hsucceeded
        have hdup : ∀ d' hash', (p.call !i).Decides uc d' hash' →
            (p.call !i).isDuplicate s.shared hash' = true := by
          intro d' hash' hdec'
          rw [ProcessCall.isDuplicate_iff, p.sameOrder]
          exact ⟨row, hrow, by rw [hhash, hsame.hash_eq hdec hdec']⟩
        obtain ⟨hnext, hsubmissions⟩ := early_step hearly hdup
        exact ⟨heffect.sent_eq_nil hsubmissions, hnext⟩
      · rw [hresult] at heffect ⊢
        exact ⟨heffect.sent_eq_nil rfl, Or.inr ⟨result, rfl⟩⟩
  have hrun : I ((daemons uc p).run s is) :=
    run_invariant hstep ⟨sent, recorded, h, hu, hsucceeded, hstart, Or.inl hearly⟩ is
  obtain ⟨sent', recorded', h', _, _, hnil, _⟩ := hrun
  exact ⟨sent', recorded', h', hnil⟩

/-- Both invariants hold in every interleaving. -/
theorem Accounted.run (h : Accounted uc p w₀ s sent recorded) (hu : Undisturbed uc p s)
    (is : List Bool) :
    (∃ sent recorded, Accounted uc p w₀ ((daemons uc p).run s is) sent recorded) ∧
      Undisturbed uc p ((daemons uc p).run s is) := by
  let I : Config Bool World DaemonPhase → Prop := fun s =>
    (∃ sent recorded, Accounted uc p w₀ s sent recorded) ∧ Undisturbed uc p s
  have hstep : ∀ s k, I s → I (advance (fun i => (p.call i).step uc) s k) := by
    intro s k hI
    obtain ⟨⟨sent, recorded, h⟩, hu⟩ := hI
    obtain ⟨_, _, _, hkeep⟩ := h.keep k
    exact ⟨⟨_, _, hkeep⟩, hu.keep h k⟩
  exact run_invariant hstep ⟨⟨sent, recorded, h⟩, hu⟩ is

/-- **Two daemons.** In every interleaving, the two calls together make at
    most two submissions and commit at most two attempts. The attempts
    have different numbers if one call starts when the other one's attempt
    is committed. If one call reads the processed row when the other one's
    success is committed, and their content is the same, there is at most
    one submission. -/
theorem two_daemons (uc : ProcessOrderUseCase) (p : TwoCalls) (w : World) (is₁ is₂ : List Bool) :
    let s₁ := (daemons uc p).run (bothStarting w) is₁
    let s₂ := (daemons uc p).run s₁ is₂
    (newSubmissions w s₂).length ≤ 2 ∧ (newAttempts w s₂).length ≤ 2 ∧
      (∀ i, (s₁.locals i).Settled → s₁.locals (!i) = .starting →
        ((newAttempts w s₂).map (·.attemptNumber)).Nodup) ∧
      (∀ i, (s₁.locals i).Succeeded → (s₁.locals !i).Early → p.SameContent uc →
        (newSubmissions w s₂).length ≤ 1) := by
  intro s₁ s₂
  obtain ⟨⟨sent₁, recorded₁, h₁⟩, hu₁⟩ :=
    (accounted_bothStarting uc p w).run (undisturbed_bothStarting uc p w) is₁
  obtain ⟨⟨sent₂, recorded₂, h₂⟩, _⟩ := h₁.run hu₁ is₂
  refine ⟨?_, ?_, ?_, ?_⟩
  · have hfalse := (h₂.reached false).length_sent
    have htrue := (h₂.reached true).length_sent
    rw [h₂.newSubmissions_perm.length_eq, List.length_append]
    omega
  · have hfalse := (h₂.reached false).length_recorded
    have htrue := (h₂.reached true).length_recorded
    rw [h₂.newAttempts_perm.length_eq, List.length_append]
    omega
  · intro i hsettled hstart
    have hbehind : Behind s₁ recorded₁ i (!i) := by
      have hearly : (s₁.locals !i).Early := by
        rw [hstart]
        trivial
      refine ⟨hsettled, ?_, ?_⟩
      · rw [hstart]
        exact nofun
      · rw [((h₁.reached !i).nil_of_early hearly).2]
        exact nofun
    obtain ⟨sent', recorded', h', hb'⟩ := h₁.behind_run (Bool.not_ne_self i) hbehind is₂
    exact h'.nodup_numbers hb'
  · intro i hsucceeded hearly hsame
    obtain ⟨sent', recorded', h', hnil⟩ := h₁.silent_run hu₁ hsucceeded hearly hsame is₂
    have hone := (h'.reached i).length_sent
    rw [h'.newSubmissions_perm.length_eq, List.length_append]
    cases i with
    | false =>
      have hnil : sent' true = [] := hnil
      rw [hnil, List.length_nil]
      omega
    | true =>
      have hnil : sent' false = [] := hnil
      rw [hnil, List.length_nil]
      omega

/-! ### Two daemons in step

    Both calls read the attempt number and the processed row before either
    of them submits. -/

namespace TwoDaemons

def calls : TwoCalls where
  call i := if i then { Sample.call Sample.accept with correlationId := Sample.secondId }
    else Sample.call Sample.accept
  orderId := "ORD-1"
  sameOrder i := by cases i <;> rfl

def done : Config Bool World DaemonPhase :=
  (daemons (Sample.useCase 3) calls).run (bothStarting (World.fresh Sample.rules))
    [false, true, false, true, false, true, false, false, true, true]

theorem sameContent_calls : calls.SameContent (Sample.useCase 3) := by
  intro i d d' h h'
  -- the two calls differ in their ids alone
  have hd : d = d' := by
    cases i with
    | false => exact Except.ok.inj (h.symm.trans h')
    | true => exact Except.ok.inj (h.symm.trans h')
  subst hd
  cases i <;> exact ⟨rfl, rfl⟩

theorem submitted_twice_under_one_number :
    ((newSubmissions (World.fresh Sample.rules) done).filter (·.accepted)).length = 2 ∧
      (newAttempts (World.fresh Sample.rules) done).map (·.attemptNumber) = [1, 1] ∧
      calls.SameContent (Sample.useCase 3) := ⟨rfl, rfl, sameContent_calls⟩

/-! ### Two daemons in turn -/

/-- The first call is refused. -/
def refusedFirst : TwoCalls where
  call i := if i then { Sample.call Sample.accept with correlationId := Sample.secondId }
    else Sample.call Sample.refuse
  orderId := "ORD-1"
  sameOrder i := by cases i <;> rfl

/-- Where the second call begins when the first one has recorded its failure,
    the attempts have two numbers. And where it has read its attempt number
    before the first one's success, but not the processed row, it submits
    nothing. -/
theorem two_daemons_in_turn :
    let w := World.fresh Sample.rules
    (let s₁ := (daemons (Sample.useCase 3) refusedFirst).run (bothStarting w) (List.replicate 5 false)
      let s₂ := (daemons (Sample.useCase 3) refusedFirst).run s₁ (List.replicate 5 true)
      (newAttempts w s₂).length = 2 ∧ ((newAttempts w s₂).map (·.attemptNumber)).Nodup) ∧
    (let s₁ := (daemons (Sample.useCase 3) calls).run (bothStarting w)
        (true :: List.replicate 5 false)
      let s₂ := (daemons (Sample.useCase 3) calls).run s₁ (List.replicate 5 true)
      s₁.locals true = .numbered 1 ∧ (newSubmissions w s₂).length ≤ 1) := by
  refine ⟨⟨rfl, ?_⟩, rfl, ?_⟩
  · have hend : ((daemons (Sample.useCase 3) refusedFirst).run (bothStarting (World.fresh Sample.rules))
        (List.replicate 5 false)).locals false =
          .finished (.error ⟨.EnrichmentSubmissionError, "503 Service Unavailable"⟩) := rfl
    refine (two_daemons (Sample.useCase 3) refusedFirst _ (List.replicate 5 false)
      (List.replicate 5 true)).2.2.1 false ⟨?_, ?_⟩ rfl
    · rw [hend]
      exact fun h => by cases h
    · rw [hend]
      rfl
  · exact (two_daemons (Sample.useCase 3) calls _ (true :: List.replicate 5 false)
      (List.replicate 5 true)).2.2.2 false ⟨Sample.correlationId, rfl⟩ trivial sameContent_calls

end TwoDaemons

end RulesEnrichment
