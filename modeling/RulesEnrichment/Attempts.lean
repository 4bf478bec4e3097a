import RulesEnrichment.Records
import RulesEnrichment.DeadLetter
import Mathlib.Data.List.Perm.Subperm

/-! # Attempt numbers and the attempt limit

    Every recorded result takes the next number of its order, whatever its
    outcome: the attempts of an order are numbered 1, 2, 3, … (`Numbered`).
    The limit is compared with this number, and only after a submission
    failed.

    * `attempts_gap_free`: this holds after every sequence of calls.
    * `deadLetter_after_attempts`: an order is given up after at least
      `max_processing_attempts` attempts, successes included.
    * `attemptLimit_iff`: the limit bounds the submissions of an order that
      keeps failing exactly if the order is not submitted any more once it
      was given up. -/

namespace RulesEnrichment

open StepMachine UnitOfWork KeyedTable

/-! ## The attempts of an order -/

/-- The attempts of an order, oldest first. -/
def attemptsOf (db : Database) (orderId : String) : List ProcessingAttempt :=
  db.attempts.filter (·.orderId = orderId)

theorem mem_attemptsOf {db : Database} {orderId : String} {a : ProcessingAttempt} :
    a ∈ attemptsOf db orderId ↔ a ∈ db.attempts ∧ a.orderId = orderId := by
  simp [attemptsOf]

theorem Recorded.attemptsOf_self {r : ResultRecord} {db db' : Database} (h : Recorded r db db') :
    attemptsOf db' r.orderId = attemptsOf db r.orderId ++ [r.attempt] := by
  have hown : r.attempt.orderId = r.orderId := rfl
  unfold attemptsOf
  rw [h.attempts, List.filter_append, List.filter_singleton]
  simp [hown]

theorem Recorded.attemptsOf_ne {r : ResultRecord} {db db' : Database} (h : Recorded r db db')
    {orderId : String} (hne : r.orderId ≠ orderId) : attemptsOf db' orderId = attemptsOf db orderId := by
  have hown : r.attempt.orderId = r.orderId := rfl
  unfold attemptsOf
  rw [h.attempts, List.filter_append, List.filter_singleton]
  simp [hown, hne]

/-- The attempts of every order are numbered from 1 on, and each is a
    success or a failure. -/
structure Numbered (db : Database) : Prop where
  numbers : ∀ o, (attemptsOf db o).map (·.attemptNumber) = List.range' 1 (attemptsOf db o).length
  settled : ∀ a ∈ db.attempts, a.status = .SUCCESS ∨ a.status = .FAILED

theorem max?_range' (n : Nat) : (List.range' 1 (n + 1)).max? = some (n + 1) := by
  rw [List.max?_eq_some_iff]
  constructor
  · rw [List.mem_range'_1]
    omega
  · intro b hb
    rw [List.mem_range'_1] at hb
    omega

namespace Numbered

theorem fresh (rules : Table EnrichmentRule EnrichmentRule.ruleId) :
    Numbered (Database.fresh rules) := by
  refine ⟨fun _ => rfl, ?_⟩
  intro a ha
  cases ha

/-- The next attempt number counts the attempts. -/
theorem attemptNumber_eq {w : World} (h : Numbered w.db) (c : ProcessCall) :
    c.attemptNumber w = (attemptsOf w.db c.order.orderId).length + 1 := by
  have hnum := h.numbers c.order.orderId
  show ProcessingAttemptRepository.getNextAttemptNumber _ _ = _
  unfold ProcessingAttemptRepository.getNextAttemptNumber
  have hlist : (w.db.attempts.filter (·.orderId = c.order.orderId)).map (·.attemptNumber) =
      List.range' 1 (attemptsOf w.db c.order.orderId).length := hnum
  rw [Session.snapshot_enter, hlist]
  cases (attemptsOf w.db c.order.orderId).length with
  | zero => rfl
  | succ n =>
    rw [max?_range']
    simp

theorem preserve_recorded {db db' : Database} (h : Numbered db) {r : ResultRecord}
    (hrec : Recorded r db db')
    (hnum : r.attemptNumber = (attemptsOf db r.orderId).length + 1) : Numbered db' := by
  constructor
  · intro o
    by_cases ho : r.orderId = o
    · -- the order of the record gets the next number
      subst ho
      rw [hrec.attemptsOf_self, List.map_append, h.numbers, List.length_append, List.length_singleton,
        List.range'_1_concat]
      simp [ResultRecord.attempt, hnum, Nat.add_comm]
    · rw [hrec.attemptsOf_ne ho]
      exact h.numbers o
  · intro a ha
    rcases hrec.mem_attempts.mp ha with ha | rfl
    · exact h.settled a ha
    · cases hs : r.success <;> simp [ResultRecord.attempt, hs]

/-- The table of attempts is all that counts. -/
theorem of_attempts {db db' : Database} (h : Numbered db) (heq : db'.attempts = db.attempts) :
    Numbered db' := by
  have hof : ∀ o, attemptsOf db' o = attemptsOf db o := by
    intro o
    unfold attemptsOf
    rw [heq]
  constructor
  · intro o
    rw [hof]
    exact h.numbers o
  · rw [heq]
    exact h.settled

theorem preserve_process {w : World} (h : Numbered w.db) (uc : ProcessOrderUseCase)
    (c : ProcessCall) : Numbered (c.execute uc w).2.db := by
  have hnum : ∀ r, c.IsResult w r →
      r.attemptNumber = (attemptsOf w.db r.orderId).length + 1 := by
    intro r hr
    rw [hr.attemptNumber, hr.orderId]
    exact h.attemptNumber_eq c
  have hwrites := c.execute_writes uc w
  generalize (c.execute uc w).2.db = db at hwrites ⊢
  cases hwrites with
  | nothing => exact h
  | result r _ hr hrec => exact h.preserve_recorded hrec (hnum r hr)
  | deadLettered r db₁ _ hr hrec hdead =>
    have hrecorded := h.preserve_recorded hrec (hnum r hr)
    exact hrecorded.of_attempts hdead.attempts

theorem preserve_step (uc : ProcessOrderUseCase) {w : World} (i : Processing.Input)
    (h : Numbered w.db) : Numbered (Processing.step uc w i).db := by
  cases i with
  | process c => exact h.preserve_process uc c
  | publish c =>
    -- publishing touches the outbox alone
    refine h.of_attempts ?_
    show (publishOutbox c w).2.db.attempts = w.db.attempts
    rw [publishOutbox_frame]

end Numbered

theorem reachable_numbered (uc : ProcessOrderUseCase) {w : World}
    (hw : (Processing.machine uc).Reachable w) : Numbered w.db := by
  refine Machine.reachable_induction _ (I := fun w => Numbered w.db) ?_ ?_ hw
  · intro w₀ hinit
    obtain ⟨rules, rfl⟩ := hinit
    exact Numbered.fresh rules
  · intro w i h _
    exact h.preserve_step uc i

/-- A step only appends to the attempts. -/
theorem attempts_prefix_step (uc : ProcessOrderUseCase) (w : World) (i : Processing.Input) :
    w.db.attempts <+: (Processing.step uc w i).db.attempts := by
  match i with
  | .process c =>
    have hwrites := c.execute_writes uc w
    show w.db.attempts <+: (c.execute uc w).2.db.attempts
    generalize (c.execute uc w).2.db = db at hwrites ⊢
    rcases hwrites with _ | ⟨r, _, _, hrec⟩ | ⟨r, db₁, _, _, hrec, hdead⟩
    · exact List.prefix_refl _
    · exact ⟨_, hrec.attempts.symm⟩
    · rw [hdead.attempts]
      exact ⟨_, hrec.attempts.symm⟩
  | .publish c =>
    show w.db.attempts <+: (publishOutbox c w).2.db.attempts
    rw [publishOutbox_frame]

theorem attempts_prefix_run (uc : ProcessOrderUseCase) (w : World) (is : List Processing.Input) :
    w.db.attempts <+: ((Processing.machine uc).run w is).db.attempts := by
  induction is generalizing w with
  | nil => exact List.prefix_refl _
  | cons i is ih => exact (attempts_prefix_step uc w i).trans (ih _)

/-- **No gaps.** After every sequence of calls, whatever fails in them, the
    attempts of each order are numbered 1, 2, 3, … in the order in which
    they were committed: the table only grows at its end. -/
theorem attempts_gap_free (uc : ProcessOrderUseCase)
    (rules : Table EnrichmentRule EnrichmentRule.ruleId) (is : List Processing.Input) :
    (∀ o, let attempts := attemptsOf ((Processing.machine uc).run (World.fresh rules) is).db o
      attempts.map (·.attemptNumber) = List.range' 1 attempts.length) ∧
    ∀ is₁ is₂, is = is₁ ++ is₂ →
      ((Processing.machine uc).run (World.fresh rules) is₁).db.attempts <+:
        ((Processing.machine uc).run (World.fresh rules) is).db.attempts := by
  constructor
  · -- nothing is asked of the ids, so the steps need not be legal
    have hrun : ∀ is w, Numbered w.db → Numbered ((Processing.machine uc).run w is).db := by
      intro is
      induction is with
      | nil => exact fun _ h => h
      | cons i is ih => exact fun w h => ih _ (h.preserve_step uc i)
    exact (hrun is _ (Numbered.fresh rules)).numbers
  · intro is₁ is₂ hsplit
    rw [hsplit, Machine.run_append]
    exact attempts_prefix_run uc _ is₂

/-! ## When an order is given up -/

namespace ProcessCall

variable (uc : ProcessOrderUseCase) (c : ProcessCall) (w : World)

/-- The database on which the handler of the `try` block invokes
    `MoveOrderToDeadLetterUseCase.execute`, if it does. -/
def giveUp (n : Nat) (hash : String) (exc : PyErr) (db : Database) : Option Database :=
  match persistResult c.faults.failure (c.failureRecord n hash exc) db with
  | (.error _, _) => none
  | (.ok (), db) => if uc.maxProcessingAttempts ≤ n then some db else none

/-- The committed database when the call invokes
    `MoveOrderToDeadLetterUseCase.execute`; `none` if it does not. -/
def deadLetterInvocation : Option Database :=
  match evaluate uc.runtime c.order c.rules c.now with
  | .error _ => none
  | .ok d =>
    match computeHash uc.runtime c.order d.enrichedFields with
    | .error _ => none
    | .ok hash =>
      if c.isDuplicate w hash || !d.hasMatches then none
      else
        match c.tryBlock uc (c.attemptNumber w) hash d (w.issue c.correlationId) with
        | (.ok (), _) => none
        | (.error exc, w₁) => c.giveUp uc (c.attemptNumber w) hash exc w₁.db

variable {uc c w}

theorem giveUp_eq_some {n : Nat} {hash : String} {exc : PyErr} {db db' : Database}
    (h : c.giveUp uc n hash exc db = some db') :
    Recorded (c.failureRecord n hash exc) db db' ∧ uc.maxProcessingAttempts ≤ n := by
  unfold giveUp at h
  rcases persistResult_cases c.faults.failure (c.failureRecord n hash exc) db
    with ⟨e, he, _⟩ | ⟨db₁, hok, hrec, _⟩
  · simp [he] at h
  · simp only [hok] at h
    by_cases hlimit : uc.maxProcessingAttempts ≤ n
    · rw [if_pos hlimit, Option.some.injEq] at h
      subst h
      exact ⟨hrec, hlimit⟩
    · simp [hlimit] at h

theorem deadLetterInvocation_of_submits {d : EnrichmentDecision} {hash : String}
    (hsub : c.Submits uc w d hash) :
    c.deadLetterInvocation uc w =
      match c.tryBlock uc (c.attemptNumber w) hash d (w.issue c.correlationId) with
      | (.ok (), _) => none
      | (.error exc, w₁) => c.giveUp uc (c.attemptNumber w) hash exc w₁.db := by
  unfold deadLetterInvocation
  simp only [hsub.evaluated, hsub.hashed, hsub.notDuplicate, hsub.hasMatches, Bool.not_true,
    Bool.or_self, Bool.false_eq_true, if_false]

theorem submits_of_deadLetterInvocation {db : Database}
    (h : c.deadLetterInvocation uc w = some db) : ∃ d hash, c.Submits uc w d hash := by
  unfold deadLetterInvocation at h
  cases heval : evaluate uc.runtime c.order c.rules c.now with
  | error e => simp [heval] at h
  | ok d =>
    obtain ⟨hash, hhash⟩ := computeHash_ok uc.runtime c.order d.enrichedFields
    simp only [heval, hhash] at h
    by_cases hskip : (c.isDuplicate w hash || !d.hasMatches) = true
    · simp [hskip] at h
    · simp only [Bool.or_eq_true, Bool.not_eq_true', not_or, Bool.not_eq_true, Bool.not_eq_false]
        at hskip
      obtain ⟨hdup, hmatch⟩ := hskip
      exact ⟨d, hash, ⟨heval, hhash⟩, hdup, hmatch⟩

/-- A call that gives its order up has submitted and recorded a failure,
    and its attempt number has reached the limit. -/
theorem deadLetterInvocation_eq_some {db : Database} (h : c.deadLetterInvocation uc w = some db) :
    (∃ d hash exc, c.Submits uc w d hash ∧
      Recorded (c.failureRecord (c.attemptNumber w) hash exc) w.db db) ∧
    uc.maxProcessingAttempts ≤ c.attemptNumber w := by
  obtain ⟨d, hash, hsub⟩ := submits_of_deadLetterInvocation h
  rw [deadLetterInvocation_of_submits hsub] at h
  rcases c.tryBlock_cases uc w (c.attemptNumber w) hash d with
    ⟨exc, accepted, _, htry⟩ | ⟨w', htry, _⟩
  · rw [htry] at h
    obtain ⟨hrec, hlimit⟩ := giveUp_eq_some h
    exact ⟨⟨d, hash, exc, hsub, hrec⟩, hlimit⟩
  · simp [htry] at h

/-- The move is the last thing such a call does to the database. -/
theorem execute_of_deadLetterInvocation {db : Database}
    (h : c.deadLetterInvocation uc w = some db) :
    (c.execute uc w).2.db = (moveToDeadLetter c.faults.deadLetter c.deadLetterRecord db).2 := by
  obtain ⟨d, hash, hsub⟩ := submits_of_deadLetterInvocation h
  rw [deadLetterInvocation_of_submits hsub] at h
  rw [execute_of_submits uc c w hsub]
  rcases c.tryBlock_cases uc w (c.attemptNumber w) hash d with
    ⟨exc, accepted, _, htry⟩ | ⟨w', htry, _⟩
  · simp only [htry] at h ⊢
    unfold giveUp at h
    unfold exceptBlock World.transact
    -- the failure is on record and the limit is reached: the two `match`es go the same way
    split at h
    · cases h
    · next db₁ hpersist =>
      by_cases hlimit : uc.maxProcessingAttempts ≤ c.attemptNumber w
      · rw [if_pos hlimit, Option.some.injEq] at h
        subst h
        simp only [hpersist, hlimit, if_true]
        cases moveToDeadLetter c.faults.deadLetter c.deadLetterRecord db₁ with
        | mk res db' => cases res <;> rfl
      · simp [hlimit] at h
  · simp [htry] at h

/-- A call whose submission is refused gives its order up exactly if its
    attempt number has reached the limit, provided its failure can be
    recorded. -/
theorem deadLetterInvocation_of_refused {d : EnrichmentDecision} {hash : String} {exc : PyErr}
    (hsub : c.Submits uc w d hash) (hanswer : c.answer uc d = .error exc)
    (hfault : c.faults.failure = none)
    (hfree : w.db.outbox.find? (messageIdOf c.correlationId c.order.orderId) = none) :
    (c.deadLetterInvocation uc w).isSome = true ↔
      uc.maxProcessingAttempts ≤ c.attemptNumber w := by
  unfold deadLetterInvocation
  simp only [hsub.evaluated, hsub.hashed, hsub.notDuplicate, hsub.hasMatches, Bool.not_true,
    Bool.or_self, Bool.false_eq_true, if_false, tryBlock, submitEnrichment, hanswer, World.db_issue]
  unfold giveUp
  rcases persistResult_cases c.faults.failure (c.failureRecord (c.attemptNumber w) hash exc) w.db
    with ⟨e, he, hrefused⟩ | ⟨db, hok, _, _⟩
  · -- nothing refuses the record
    exact absurd ((c.refused_record_iff rfl).mp hrefused) (not_refused hfault hfree)
  · simp only [hok]
    by_cases hlimit : uc.maxProcessingAttempts ≤ c.attemptNumber w <;> simp [hlimit]

end ProcessCall

/-- **Giving up.** Whenever a call gives its order up, the database holds
    at least `max_processing_attempts` attempts for it, successes and
    failures together, and the latest is the failure of this call. -/
theorem deadLetter_after_attempts (uc : ProcessOrderUseCase) {w : World}
    (hw : (Processing.machine uc).Reachable w) {c : ProcessCall} {db : Database}
    (h : c.deadLetterInvocation uc w = some db) :
    uc.maxProcessingAttempts ≤ (attemptsOf db c.order.orderId).length ∧
      (∀ a ∈ attemptsOf db c.order.orderId, a.status = .SUCCESS ∨ a.status = .FAILED) ∧
      ∃ a, (attemptsOf db c.order.orderId).getLast? = some a ∧ a.status = .FAILED ∧
        a.correlationId = c.correlationId := by
  have hnumbered := reachable_numbered uc hw
  obtain ⟨⟨d, hash, exc, hsub, hrec⟩, hlimit⟩ := ProcessCall.deadLetterInvocation_eq_some h
  have hof : attemptsOf db c.order.orderId = attemptsOf w.db c.order.orderId ++
      [(c.failureRecord (c.attemptNumber w) hash exc).attempt] := hrec.attemptsOf_self
  rw [hnumbered.attemptNumber_eq c] at hlimit
  refine ⟨?_, ?_, ?_⟩
  · rw [hof, List.length_append, List.length_singleton]
    exact hlimit
  · intro a ha
    obtain ⟨hin, _⟩ := mem_attemptsOf.mp ha
    rcases hrec.mem_attempts.mp hin with hold | rfl
    · exact hnumbered.settled a hold
    · exact Or.inr rfl
  · rw [hof, List.getLast?_concat]
    exact ⟨_, rfl, rfl, rfl⟩

/-! ### An order given up after a success

    The limit is 2. The order is enriched, then its content changes, and
    the first submission that fails is the last one. -/

namespace Sample

/-- The order of `call` with new content, under another id. -/
def changedCall : ProcessCall := { call refuse with
  order := order "ORD-1" ten, now := eleven, correlationId := secondId }

end Sample

theorem legal_sample : (Processing.machine (Sample.useCase 2)).Legal (World.fresh Sample.rules)
    [.process (Sample.call Sample.accept)] := by
  intro p hp
  rw [List.mem_singleton.mp hp]
  exact ⟨by decide, by decide⟩

theorem given_up_after_one_failure :
    let w := (Processing.machine (Sample.useCase 2)).run (World.fresh Sample.rules)
      [.process (Sample.call Sample.accept)]
    (Processing.machine (Sample.useCase 2)).Reachable w ∧ Sample.changedCall.faults = {} ∧
      ∃ db, Sample.changedCall.deadLetterInvocation (Sample.useCase 2) w = some db ∧
        ((attemptsOf db "ORD-1").filter (·.status = .FAILED)).length = 1 :=
  ⟨⟨_, _, ⟨_, rfl⟩, legal_sample, rfl⟩, rfl, _, rfl, by decide⟩

theorem deadLetter_after_attempts_sample :
    let w := (Processing.machine (Sample.useCase 2)).run (World.fresh Sample.rules)
      [.process (Sample.call Sample.accept)]
    ∃ db, Sample.changedCall.deadLetterInvocation (Sample.useCase 2) w = some db ∧
      2 ≤ (attemptsOf db "ORD-1").length ∧
      (∀ a ∈ attemptsOf db "ORD-1", a.status = .SUCCESS ∨ a.status = .FAILED) ∧
      ∃ a, (attemptsOf db "ORD-1").getLast? = some a ∧ a.status = .FAILED ∧
        a.correlationId = Sample.secondId := by
  intro w
  have hsome : (Sample.changedCall.deadLetterInvocation (Sample.useCase 2) w).isSome = true := rfl
  obtain ⟨db, hdb⟩ := Option.isSome_iff_exists.mp hsome
  have hreach : (Processing.machine (Sample.useCase 2)).Reachable w :=
    ⟨_, _, ⟨_, rfl⟩, legal_sample, rfl⟩
  exact ⟨db, hdb, deadLetter_after_attempts (Sample.useCase 2) hreach hdb⟩

/-! ## The limit as a bound -/

namespace Polls

/-- The failed attempts of an order. -/
def failures (db : Database) (orderId : String) : List ProcessingAttempt :=
  (attemptsOf db orderId).filter (·.status = .FAILED)

/-- The failed attempts of an order whose number has reached the limit. -/
def exhausted (uc : ProcessOrderUseCase) (db : Database) (orderId : String) :
    List ProcessingAttempt :=
  (failures db orderId).filter (uc.maxProcessingAttempts ≤ ·.attemptNumber)

/-- The same order is polled again and again, and every submission of it
    fails. -/
structure Fails (uc : ProcessOrderUseCase) (order : ExternalOrder) (w : World) (c : ProcessCall) :
    Prop where
  order : c.order = order
  noFaults : c.faults = {}
  uuid : isUuid c.correlationId = true
  freshId : c.correlationId ∉ w.issued
  refused : ∀ d hash, c.Submits uc w d hash → ∃ exc, c.answer uc d = .error exc

def machine (uc : ProcessOrderUseCase) (order : ExternalOrder) : Machine World ProcessCall where
  init w := ∃ rules, w = World.fresh rules
  guard := Fails uc order
  step w c := (c.execute uc w).2

/-- How often a run comes to `MoveOrderToDeadLetterUseCase.execute`. -/
def invocations (uc : ProcessOrderUseCase) (order : ExternalOrder) (w : World)
    (cs : List ProcessCall) : Nat :=
  ((machine uc order).visits w cs).countP fun p => (p.2.deadLetterInvocation uc p.1).isSome

/-- What one more poll of the order does: it submits nothing and records no
    failure, or it submits, fails and records the failure. -/
inductive PollStep (uc : ProcessOrderUseCase) (w : World) (c : ProcessCall) : World → Prop
  | idle (w' : World) (hno : ∀ d hash, ¬ c.Submits uc w d hash)
      (hsub : w'.submissions = w.submissions)
      (hfail : failures w'.db c.order.orderId = failures w.db c.order.orderId)
      (hinv : (c.deadLetterInvocation uc w).isSome = false) : PollStep uc w c w'
  | failed (w' : World) (d : EnrichmentDecision) (hash : String) (a : ProcessingAttempt)
      (hsubmits : c.Submits uc w d hash)
      (hsub : w'.submissions.length = w.submissions.length + 1)
      (hfail : failures w'.db c.order.orderId = failures w.db c.order.orderId ++ [a])
      (hnum : a.attemptNumber = c.attemptNumber w)
      (hinv : (c.deadLetterInvocation uc w).isSome = true ↔
        uc.maxProcessingAttempts ≤ c.attemptNumber w) : PollStep uc w c w'

theorem failures_recorded {r : ResultRecord} {db db' : Database} (hrec : Recorded r db db') :
    failures db' r.orderId =
      failures db r.orderId ++ if r.success then [] else [r.attempt] := by
  unfold failures
  rw [hrec.attemptsOf_self, List.filter_append, List.filter_singleton]
  cases hs : r.success <;> simp [ResultRecord.attempt, hs]

theorem failures_of_attempts {db db' : Database} (h : db'.attempts = db.attempts) (o : String) :
    failures db' o = failures db o := by
  unfold failures attemptsOf
  rw [h]

section

variable {uc : ProcessOrderUseCase} {order : ExternalOrder} {w : World} {c : ProcessCall}

/-- A call that does not submit does not give its order up. -/
theorem no_invocation (hno : ∀ d hash, ¬ c.Submits uc w d hash) :
    (c.deadLetterInvocation uc w).isSome = false := by
  cases hinv : c.deadLetterInvocation uc w with
  | none => rfl
  | some db =>
    obtain ⟨d, hash, hsub⟩ := ProcessCall.submits_of_deadLetterInvocation hinv
    exact absurd hsub (hno d hash)

theorem pollStep (hids : IdsIssued w) (hf : Fails uc order w c) :
    PollStep uc w c (c.execute uc w).2 := by
  have hfree := hids.messageId_free hf.uuid hf.freshId c.order.orderId
  have hfault : c.faults.failure = none := by rw [hf.noFaults]
  have hdup : ∀ d hash, c.Decides uc d hash → c.isDuplicate w hash = true →
      ∀ d' hash', ¬ c.Submits uc w d' hash' := by
    intro d hash hdec hdup d' hash' hsub
    obtain ⟨_, rfl⟩ := hdec.unique hsub.toDecides
    rw [hsub.notDuplicate] at hdup
    cases hdup
  have hnomatch : ∀ d hash, c.Decides uc d hash → d.hasMatches = false →
      ∀ d' hash', ¬ c.Submits uc w d' hash' := by
    intro d hash hdec hmatch d' hash' hsub
    obtain ⟨rfl, _⟩ := hdec.unique hsub.toDecides
    rw [hsub.hasMatches] at hmatch
    cases hmatch
  have hstep := c.execute_step uc w
  generalize (c.execute uc w).1 = res, (c.execute uc w).2 = w' at hstep ⊢
  cases hstep with
  | evaluationError e hraise =>
    have hno : ∀ d hash, ¬ c.Submits uc w d hash := by
      intro d hash hsub
      rw [hsub.evaluated] at hraise
      cases hraise
    exact .idle _ hno rfl rfl (no_invocation hno)
  | duplicate d hash hdec hd =>
    have hno := hdup d hash hdec hd
    exact .idle _ hno rfl rfl (no_invocation hno)
  | noMatch d hash db hdec hd hmatch hrec _ =>
    -- a success is on record, but no failure
    have hno := hnomatch d hash hdec hmatch
    have hfail : failures db c.order.orderId = failures w.db c.order.orderId ++ [] :=
      failures_recorded hrec
    rw [List.append_nil] at hfail
    exact .idle _ hno rfl hfail (no_invocation hno)
  | noMatchRefused d hash e hdec hd hmatch _ =>
    have hno := hnomatch d hash hdec hmatch
    exact .idle _ hno rfl rfl (no_invocation hno)
  | submits d hash hsub hstep =>
    obtain ⟨exc, hanswer⟩ := hf.refused d hash hsub
    have hinv := ProcessCall.deadLetterInvocation_of_refused hsub hanswer hfault hfree
    have hfailed : ∀ exc' db, Recorded (c.failureRecord (c.attemptNumber w) hash exc') w.db db →
        failures db c.order.orderId = failures w.db c.order.orderId ++
          [(c.failureRecord (c.attemptNumber w) hash exc').attempt] :=
      fun _ _ hrec => failures_recorded hrec
    cases hstep with
    | succeeded db hok _ _ =>
      rw [hanswer] at hok
      cases hok
    | failureRefused accepted exc' e _ hrefused =>
      -- neither a fault nor a taken id
      exact absurd hrefused (ProcessCall.not_refused hfault hfree)
    | failed accepted exc' db _ hrec _ _ =>
      exact .failed _ d hash _ hsub (by simp [ProcessCall.submitted]) (hfailed exc' db hrec) rfl hinv
    | deadLetterRefused accepted exc' e db _ hrec _ _ _ =>
      exact .failed _ d hash _ hsub (by simp [ProcessCall.submitted]) (hfailed exc' db hrec) rfl hinv
    | deadLettered accepted exc' db db' _ hrec _ _ hdead _ =>
      have hsame := failures_of_attempts hdead.attempts c.order.orderId
      exact .failed _ d hash _ hsub (by simp [ProcessCall.submitted])
        (hsame.trans (hfailed exc' db hrec)) rfl hinv

/-- The invariant of the polls. -/
structure Kept (w : World) : Prop where
  ids : IdsIssued w
  numbered : Numbered w.db

theorem Kept.preserve (h : Kept w) (hf : Fails uc order w c) :
    Kept ((machine uc order).step w c) :=
  ⟨h.ids.preserve_process hf.uuid, h.numbered.preserve_process uc c⟩

/-- The failures before a poll are numbered below it. -/
theorem number_lt {a : ProcessingAttempt} (ha : a ∈ failures w.db c.order.orderId) :
    a.attemptNumber < c.attemptNumber w := by
  obtain ⟨hin, ho⟩ := mem_attemptsOf.mp (List.mem_filter.mp ha).1
  have hlt := lt_getNextAttemptNumber (s := Session.enter w.db) hin
  rw [ho] at hlt
  exact hlt

/-- The exhausted failures after a poll that failed. -/
theorem exhausted_snoc {db db' : Database} {o : String} {a : ProcessingAttempt}
    (hfail : failures db' o = failures db o ++ [a]) :
    exhausted uc db' o =
      exhausted uc db o ++ if uc.maxProcessingAttempts ≤ a.attemptNumber then [a] else [] := by
  unfold exhausted
  rw [hfail, List.filter_append, List.filter_singleton]
  by_cases hlimit : uc.maxProcessingAttempts ≤ a.attemptNumber <;> simp [hlimit]

theorem exhausted_eq {db db' : Database} {o : String} (hfail : failures db' o = failures db o) :
    exhausted uc db' o = exhausted uc db o := by
  unfold exhausted
  rw [hfail]

/-- **Counting**: a run makes as many submissions as it records failures,
    and gives the order up as often as it records an exhausted one. -/
theorem counts {cs : List ProcessCall} (h : Kept w) (hl : (machine uc order).Legal w cs) :
    let w' := (machine uc order).run w cs
    w'.submissions.length + (failures w.db order.orderId).length =
        w.submissions.length + (failures w'.db order.orderId).length ∧
      (exhausted uc w'.db order.orderId).length =
        (exhausted uc w.db order.orderId).length + invocations uc order w cs := by
  induction cs generalizing w with
  | nil => exact ⟨rfl, rfl⟩
  | cons c cs ih =>
    obtain ⟨hf, hl'⟩ := ((machine uc order).legal_cons w c cs).mp hl
    have hpoll : PollStep uc w c ((machine uc order).step w c) := pollStep h.ids hf
    obtain ⟨hsubs, hexh⟩ := ih (h.preserve hf) hl'
    have hcount : invocations uc order w (c :: cs) =
        invocations uc order ((machine uc order).step w c) cs +
          if (c.deadLetterInvocation uc w).isSome = true then 1 else 0 := by
      unfold invocations
      rw [Machine.visits_cons, List.countP_cons]
    simp only [Machine.run_cons, hcount]
    cases hpoll with
    | idle _ hsub hfail hinv =>
      rw [hf.order] at hfail
      rw [hsub, hfail] at hsubs
      rw [exhausted_eq hfail] at hexh
      simp only [hinv, Bool.false_eq_true, if_false, Nat.add_zero]
      exact ⟨hsubs, hexh⟩
    | failed d hash a _ hsub hfail hnum hinv =>
      rw [hf.order] at hfail
      rw [hsub, hfail, List.length_append, List.length_singleton] at hsubs
      rw [exhausted_snoc hfail, hnum, List.length_append] at hexh
      have hone : (if (c.deadLetterInvocation uc w).isSome = true then 1 else 0) =
          (if uc.maxProcessingAttempts ≤ c.attemptNumber w then [a] else []).length := by
        by_cases hlimit : uc.maxProcessingAttempts ≤ c.attemptNumber w
        · rw [if_pos (hinv.mpr hlimit), if_pos hlimit, List.length_singleton]
        · rw [if_neg (fun hs => hlimit (hinv.mp hs)), if_neg hlimit, List.length_nil]
      rw [hone]
      omega

/-- Below the limit there is room for fewer failures than the limit. -/
theorem length_failures_le (uc : ProcessOrderUseCase) {db : Database} (h : Numbered db) (o : String)
    (hmax : 1 ≤ uc.maxProcessingAttempts) :
    (failures db o).length + 1 ≤ uc.maxProcessingAttempts + (exhausted uc db o).length := by
  have hsplit := List.length_eq_length_filter_add (l := failures db o)
    (fun a => decide (uc.maxProcessingAttempts ≤ a.attemptNumber))
  -- the numbers of the others are distinct and lie between 1 and the limit
  have hbelow : ((failures db o).filter
      fun a => !decide (uc.maxProcessingAttempts ≤ a.attemptNumber)).length + 1 ≤
        uc.maxProcessingAttempts := by
    have hnodup : ((attemptsOf db o).map (·.attemptNumber)).Nodup := by
      rw [h.numbers]
      exact List.nodup_range'
    have hsub : ((failures db o).filter
        fun a => !decide (uc.maxProcessingAttempts ≤ a.attemptNumber)).Sublist (attemptsOf db o) :=
      List.filter_sublist.trans List.filter_sublist
    have hrange : ((failures db o).filter
        fun a => !decide (uc.maxProcessingAttempts ≤ a.attemptNumber)).map (·.attemptNumber) ⊆
          List.range' 1 (uc.maxProcessingAttempts - 1) := by
      intro n hn
      obtain ⟨a, ha, rfl⟩ := List.mem_map.mp hn
      have hlt : a.attemptNumber < uc.maxProcessingAttempts := by
        simpa using (List.mem_filter.mp ha).2
      have hin : a.attemptNumber ∈ (attemptsOf db o).map (·.attemptNumber) :=
        List.mem_map.mpr ⟨a, hsub.subset ha, rfl⟩
      rw [h.numbers, List.mem_range'_1] at hin
      rw [List.mem_range'_1]
      omega
    have hle := (List.subperm_of_subset (hnodup.sublist (hsub.map _)) hrange).length_le
    rw [List.length_map, List.length_range'] at hle
    omega
  unfold exhausted
  omega

end

/-- The order has not been given up when it is submitted. -/
def NotGivenUp (uc : ProcessOrderUseCase) (w : World) (c : ProcessCall) : Prop :=
  ∀ d hash, c.Submits uc w d hash →
    ∀ a ∈ failures w.db c.order.orderId, a.attemptNumber < uc.maxProcessingAttempts

section

variable {uc : ProcessOrderUseCase} {w w' : World} {c : ProcessCall}

/-- A poll of an order that was given up is over the limit. -/
theorem limit_le_of_exhausted (h : exhausted uc w.db c.order.orderId ≠ []) :
    uc.maxProcessingAttempts ≤ c.attemptNumber w := by
  obtain ⟨a, ha⟩ := List.exists_mem_of_ne_nil _ h
  obtain ⟨hfailure, hlimit⟩ := List.mem_filter.mp ha
  have hlt := number_lt hfailure
  have hle : uc.maxProcessingAttempts ≤ a.attemptNumber := by simpa using hlimit
  omega

theorem notGivenUp_iff {d : EnrichmentDecision} {hash : String} (hsub : c.Submits uc w d hash) :
    NotGivenUp uc w c ↔ exhausted uc w.db c.order.orderId = [] := by
  unfold exhausted
  rw [List.filter_eq_nil_iff]
  constructor
  · intro hq a ha
    have hlt := hq d hash hsub a ha
    simpa using hlt
  · intro hnone d' hash' _ a ha
    have hno := hnone a ha
    simpa using hno

/-- A poll keeps to one exhausted failure exactly if it does not submit an
    order that was given up: a second one would follow the first. -/
theorem PollStep.exhausted_le_one_iff (hpoll : PollStep uc w c w')
    (hone : (exhausted uc w.db c.order.orderId).length ≤ 1) :
    (exhausted uc w'.db c.order.orderId).length ≤ 1 ↔ NotGivenUp uc w c := by
  cases hpoll with
  | idle hno _ hfail _ =>
    rw [exhausted_eq hfail]
    exact iff_of_true hone fun d hash hsub => absurd hsub (hno d hash)
  | failed d hash a hsubmits _ hfail hnum _ =>
    rw [notGivenUp_iff hsubmits, exhausted_snoc hfail, hnum, List.length_append]
    constructor
    · intro hle
      by_contra hne
      have hlimit := limit_le_of_exhausted hne
      have hpos := List.length_pos_iff.mpr hne
      rw [if_pos hlimit, List.length_singleton] at hle
      omega
    · intro hnil
      rw [hnil, List.length_nil]
      split <;> simp

/-- No poll takes an exhausted failure back. -/
theorem PollStep.exhausted_mono (hpoll : PollStep uc w c w') :
    (exhausted uc w.db c.order.orderId).length ≤ (exhausted uc w'.db c.order.orderId).length := by
  cases hpoll with
  | idle _ _ hfail _ => rw [exhausted_eq hfail]
  | failed d hash a _ _ hfail _ _ =>
    rw [exhausted_snoc hfail, List.length_append]
    omega

end

/-- **The limit.** In a run of polls of one order in which every submission
    fails, there are at most `max_processing_attempts` submissions and the
    order is given up at most once exactly if no poll submits the order
    after it was given up. -/
theorem attemptLimit_iff (uc : ProcessOrderUseCase) (hmax : 1 ≤ uc.maxProcessingAttempts)
    (order : ExternalOrder) (rules : Table EnrichmentRule EnrichmentRule.ruleId)
    (cs : List ProcessCall) (hl : (machine uc order).Legal (World.fresh rules) cs) :
    (((machine uc order).run (World.fresh rules) cs).submissions.length ≤
        uc.maxProcessingAttempts ∧
      invocations uc order (World.fresh rules) cs ≤ 1) ↔
    ∀ p ∈ (machine uc order).visits (World.fresh rules) cs, NotGivenUp uc p.1 p.2 := by
  have hkept : Kept (World.fresh rules) := ⟨IdsIssued.fresh rules, Numbered.fresh rules⟩
  have hend : Kept ((machine uc order).run (World.fresh rules) cs) :=
    (machine uc order).run_induction (fun _ _ h hf => h.preserve hf) hkept hl
  obtain ⟨hsubs, hexh⟩ := counts hkept hl
  have hbound := length_failures_le uc hend.numbered order.orderId hmax
  -- both bounds come to one: there is at most one exhausted failure at the end
  have hone : (((machine uc order).run (World.fresh rules) cs).submissions.length ≤
        uc.maxProcessingAttempts ∧ invocations uc order (World.fresh rules) cs ≤ 1) ↔
      (exhausted uc ((machine uc order).run (World.fresh rules) cs).db order.orderId).length ≤ 1 := by
    have hzero : (failures (World.fresh rules).db order.orderId).length = 0 := rfl
    have hzero' : (exhausted uc (World.fresh rules).db order.orderId).length = 0 := rfl
    have hnone : (World.fresh rules).submissions.length = 0 := rfl
    constructor <;> intro h <;> omega
  rw [hone]
  refine (machine uc order).run_iff Kept
    (P := fun w => (exhausted uc w.db order.orderId).length ≤ 1) (Q := NotGivenUp uc)
    (fun _ _ h hf => h.preserve hf) ?_ ?_ hkept (Nat.zero_le 1) hl
  · intro w c h hP hf
    have hpoll : PollStep uc w c ((machine uc order).step w c) := pollStep h.ids hf
    rw [← hf.order] at hP ⊢
    exact hpoll.exhausted_le_one_iff hP
  · intro w c h hf hle
    have hpoll : PollStep uc w c ((machine uc order).step w c) := pollStep h.ids hf
    rw [← hf.order] at hle ⊢
    exact hpoll.exhausted_mono.trans hle

/-! ### Two polls of an order whose submissions are refused -/

def secondPoll : ProcessCall := { Sample.call Sample.refuse with
  now := Sample.eleven, correlationId := Sample.secondId }

theorem legal_twoPolls (maxProcessingAttempts : Nat) :
    (machine (Sample.useCase maxProcessingAttempts) (Sample.order "ORD-1" Sample.nine)).Legal
      (World.fresh Sample.rules) [Sample.call Sample.refuse, secondPoll] := by
  rw [Machine.legal_cons, Machine.legal_cons]
  refine ⟨⟨rfl, rfl, by decide, by decide, fun _ _ _ => ⟨_, rfl⟩⟩,
    ⟨rfl, rfl, by decide, ?_, fun _ _ _ => ⟨_, rfl⟩⟩, ?_⟩
  · have hissued : ((Sample.call Sample.refuse).execute (Sample.useCase maxProcessingAttempts)
        (World.fresh Sample.rules)).2.issued = [Sample.correlationId] :=
      (ProcessCall.execute_issues _ _ _).1
    show Sample.secondId ∉ ((Sample.call Sample.refuse).execute
      (Sample.useCase maxProcessingAttempts) (World.fresh Sample.rules)).2.issued
    rw [hissued]
    decide
  · intro p hp
    cases hp

theorem attemptLimit_iff_twoPolls :
    (((machine (Sample.useCase 2) (Sample.order "ORD-1" Sample.nine)).run (World.fresh Sample.rules)
        [Sample.call Sample.refuse, secondPoll]).submissions.length ≤ 2 ∧
      invocations (Sample.useCase 2) (Sample.order "ORD-1" Sample.nine) (World.fresh Sample.rules)
        [Sample.call Sample.refuse, secondPoll] ≤ 1) ↔
    ∀ p ∈ (machine (Sample.useCase 2) (Sample.order "ORD-1" Sample.nine)).visits
      (World.fresh Sample.rules) [Sample.call Sample.refuse, secondPoll],
      NotGivenUp (Sample.useCase 2) p.1 p.2 :=
  attemptLimit_iff (Sample.useCase 2) (by decide) _ _ _ (legal_twoPolls 2)

/-- The limit is 1, and the order is submitted and given up twice. -/
theorem limit_one_exceeded :
    (machine (Sample.useCase 1) (Sample.order "ORD-1" Sample.nine)).Legal (World.fresh Sample.rules)
      [Sample.call Sample.refuse, secondPoll] ∧
    ((machine (Sample.useCase 1) (Sample.order "ORD-1" Sample.nine)).run (World.fresh Sample.rules)
      [Sample.call Sample.refuse, secondPoll]).submissions.length = 2 ∧
    invocations (Sample.useCase 1) (Sample.order "ORD-1" Sample.nine) (World.fresh Sample.rules)
      [Sample.call Sample.refuse, secondPoll] = 2 :=
  ⟨legal_twoPolls 1, rfl, rfl⟩

end Polls

end RulesEnrichment
