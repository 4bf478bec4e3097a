import RulesEnrichment.Lib.Interleaving
import RulesEnrichment.ProcessStep

/-! # Two publishers

    The daemon and the `publish-outbox` command may publish the same
    outbox at the same time. `PublishOutboxMessagesUseCase.execute` is cut
    here into its steps: list the pending messages, give a message to the
    sink, mark it, commit. Nothing locks a row or makes a mark conditional
    on the status, so two executions can list one message;
    `two_publishers` says what remains true. -/

namespace RulesEnrichment

open StepMachine UnitOfWork KeyedTable Interleaving

/-! ## The steps of an execution -/

inductive PublishPhase where
  | listing
  | publishing
  /-- The sink has answered, the mark is not made yet. -/
  | marking (msg : OutboxMessage) (accepted : Bool)
  | finished (result : Except PyErr Nat)

/-- An execution under way: its variables, what its loop has yet to take
    up, and the writes its session holds. -/
structure Publisher where
  phase : PublishPhase
  messages : List OutboxMessage
  rest : List OutboxMessage
  writes : List Write
  published : Nat

namespace Publisher

def idle : Publisher := ⟨.listing, [], [], [], 0⟩

/-- The execution has listed the message. -/
def Lists (p : Publisher) (messageId : String) : Prop :=
  messageId ∈ p.messages.map (·.messageId)

instance (p : Publisher) (messageId : String) : Decidable (p.Lists messageId) :=
  inferInstanceAs (Decidable (_ ∈ _))

def Finished (p : Publisher) : Prop := ∃ result, p.phase = .finished result

/-- The commit of the execution succeeded. -/
def Committed (p : Publisher) : Prop := ∃ published, p.phase = .finished (.ok published)

end Publisher

namespace PublishCall

variable (c : PublishCall)

/-- The next step of `PublishOutboxMessagesUseCase.execute`. -/
def step (p : Publisher) (w : World) : Publisher × World :=
  match p.phase with
  | .listing =>
    ({ p with phase := .publishing, messages := c.batch w.db, rest := c.batch w.db }, w)
  | .publishing =>
    match p.rest with
    | msg :: rest =>
      match c.sink msg with
      | .ok () => ({ p with phase := .marking msg true, rest := rest },
          { w with deliveries := w.deliveries ++ [⟨msg.messageId, true⟩] })
      | .error _ => ({ p with phase := .marking msg false, rest := rest },
          { w with deliveries := w.deliveries ++ [⟨msg.messageId, false⟩] })
    | [] =>
      match DbSession.commit ⟨w.db, p.writes⟩ c.commitFault w.db with
      | (.error e, db) => ({ p with phase := .finished (.error e) }, { w with db := db })
      | (.ok (), db) => ({ p with phase := .finished (.ok p.published) }, { w with db := db })
  | .marking msg true =>
    -- `session.get` reads the row as it is committed now, not as it was listed
    let s : DbSession :=
      OutboxRepository.markPublished ⟨w.db, p.writes⟩ msg.messageId (c.markedAt msg.messageId)
    ({ p with phase := .publishing, writes := s.writes, published := p.published + 1 }, w)
  | .marking msg false =>
    let s : DbSession := OutboxRepository.markFailed ⟨w.db, p.writes⟩ msg.messageId
    ({ p with phase := .publishing, writes := s.writes }, w)
  | .finished _ => (p, w)

end PublishCall

/-- Two executions over one database. -/
def publishers (calls : Bool → PublishCall) : Machine (Config Bool World Publisher) Bool :=
  Interleaving.machine (fun i => (calls i).step) .idle

/-- Both are about to list, and have the committed data before them. -/
def bothIdle (w : World) : Config Bool World Publisher := ⟨w, fun _ => .idle⟩

/-! ## One execution alone -/

section alone

variable (calls : Bool → PublishCall) (i : Bool)

/-- The loop takes two steps for each message. -/
theorem alone_publishing (messages rest : List OutboxMessage) (s : DbSession) (n : Nat)
    (log : List Delivery) (w : World) (hs : s.snapshot = w.db) :
    alone (fun i => (calls i).step) i (2 * rest.length)
        (⟨.publishing, messages, rest, s.writes, n⟩,
          { w with deliveries := w.deliveries ++ log }) =
      (⟨.publishing, messages, [], (publishLoop (calls i) rest s n log).1.writes,
          (publishLoop (calls i) rest s n log).2.1⟩,
        { w with deliveries := w.deliveries ++ (publishLoop (calls i) rest s n log).2.2 }) := by
  induction rest generalizing s n log with
  | nil => rfl
  | cons m rest ih =>
    have hlen : 2 * (m :: rest).length = 2 * rest.length + 1 + 1 := by
      rw [List.length_cons]
      omega
    rw [hlen, alone_succ, alone_succ]
    obtain ⟨snapshot, writes⟩ := s
    obtain rfl : snapshot = w.db := hs
    unfold publishLoop
    cases hsink : (calls i).sink m with
    | ok u =>
      have hsnap : (OutboxRepository.markPublished ⟨w.db, writes⟩ m.messageId
          ((calls i).markedAt m.messageId)).snapshot = w.db := by
        unfold OutboxRepository.markPublished
        split <;> rfl
      have hrest := ih (OutboxRepository.markPublished ⟨w.db, writes⟩ m.messageId
        ((calls i).markedAt m.messageId)) (n + 1) (log ++ [⟨m.messageId, true⟩]) hsnap
      rw [← List.append_assoc] at hrest
      simpa only [PublishCall.step, hsink] using hrest
    | error e =>
      have hsnap : (OutboxRepository.markFailed ⟨w.db, writes⟩ m.messageId).snapshot = w.db := by
        unfold OutboxRepository.markFailed
        split <;> rfl
      have hrest := ih (OutboxRepository.markFailed ⟨w.db, writes⟩ m.messageId) n
        (log ++ [⟨m.messageId, false⟩]) hsnap
      rw [← List.append_assoc] at hrest
      simpa only [PublishCall.step, hsink] using hrest

/-- The whole execution: list, two steps for each message, commit. -/
theorem alone_idle (w : World) :
    alone (fun i => (calls i).step) i (1 + (2 * ((calls i).batch w.db).length + 1)) (.idle, w) =
      (calls i).step
        ⟨.publishing, (calls i).batch w.db, [],
          (publishLoop (calls i) ((calls i).batch w.db) (Session.enter w.db) 0 []).1.writes,
          (publishLoop (calls i) ((calls i).batch w.db) (Session.enter w.db) 0 []).2.1⟩
        { w with deliveries := w.deliveries ++
          (publishLoop (calls i) ((calls i).batch w.db) (Session.enter w.db) 0 []).2.2 } := by
  have hlist : alone (fun i => (calls i).step) i 1 (.idle, w) =
      (⟨.publishing, (calls i).batch w.db, (calls i).batch w.db, [], 0⟩,
        { w with deliveries := w.deliveries ++ [] }) := by
    rw [List.append_nil]
    rfl
  have hloop := alone_publishing calls i ((calls i).batch w.db) ((calls i).batch w.db)
    (Session.enter w.db) 0 [] w rfl
  rw [Session.writes_enter] at hloop
  rw [alone_add, hlist, alone_add, hloop]
  rfl

/-- **An execution that has all turns** does what `publishOutbox` does. -/
theorem run_alone_eq_publishOutbox (w : World) :
    let s := (publishers calls).run (bothIdle w)
      (List.replicate (1 + (2 * ((calls i).batch w.db).length + 1)) i)
    (s.locals i).phase = .finished (publishOutbox (calls i) w).1 ∧
      s.shared = (publishOutbox (calls i) w).2 := by
  intro s
  have hrun : s.locals i = (alone (fun i => (calls i).step) i _ (.idle, w)).1 ∧
      s.shared = (alone (fun i => (calls i).step) i _ (.idle, w)).2 :=
    run_replicate (bothIdle w) i _
  rw [hrun.1, hrun.2, alone_idle]
  unfold publishOutbox
  obtain ⟨t, published, log⟩ :=
    publishLoop (calls i) ((calls i).batch w.db) (Session.enter w.db) 0 []
  simp only [PublishCall.step, DbSession.commit]
  -- the commit may fault; the writes are those of the loop either way
  rcases UnitOfWork.commit Write.apply (calls i).commitFault t.writes w.db with ⟨e | u, db⟩
  · exact ⟨rfl, rfl⟩
  · exact ⟨rfl, rfl⟩

end alone

/-! ## What a commit does to the statuses -/

/-- The status of the row with this id. -/
def Database.statusOf (db : Database) (messageId : String) : Option OutboxStatus :=
  (db.outbox.find? messageId).map (·.status)

namespace PublishCall

variable (c : PublishCall)

/-- What the execution marks a message as. -/
def outcome (m : OutboxMessage) : OutboxStatus := if c.accepts m then .PUBLISHED else .FAILED

theorem outcome_ne_pending (m : OutboxMessage) : c.outcome m ≠ .PENDING := by
  unfold outcome
  split <;> exact nofun

end PublishCall

/-- The rows of the messages have the status they were marked with, whatever
    it was before, and the others have the status they had. -/
structure Marked (c : PublishCall) (messages : List OutboxMessage) (db db' : Database) : Prop where
  known : ∀ k, db'.statusOf k = none ↔ db.statusOf k = none
  other : ∀ k, k ∉ messages.map (·.messageId) → db'.statusOf k = db.statusOf k
  marked : ∀ m ∈ messages, db.statusOf m.messageId ≠ none →
    db'.statusOf m.messageId = some (c.outcome m)

/-- A rewrite of one row that sets its status. -/
theorem statusOf_modify (db : Database) (messageId : String) (f : OutboxMessage → OutboxMessage)
    (hf : ∀ m, m.messageId = messageId → (f m).messageId = messageId) {status : OutboxStatus}
    (hstatus : ∀ m, (f m).status = status) :
    let db' := { db with outbox := db.outbox.modify messageId f hf }
    (∀ k, k ≠ messageId → db'.statusOf k = db.statusOf k) ∧
      db'.statusOf messageId = (db.statusOf messageId).map fun _ => status := by
  intro db'
  constructor
  · intro k hk
    exact congrArg (Option.map _) (Table.find?_modify_of_ne _ f hf hk)
  · show Option.map _ ((db.outbox.modify messageId f hf).find? messageId) = _
    rw [Table.find?_modify_self, Option.map_map, Database.statusOf, Option.map_map]
    exact congrArg (Option.map · _) (funext hstatus)

/-- One mark. -/
theorem apply_mark_status (c : PublishCall) (m : OutboxMessage) (db : Database) :
    ∃ db', (c.mark m).apply db = .ok db' ∧
      (∀ k, k ≠ m.messageId → db'.statusOf k = db.statusOf k) ∧
      db'.statusOf m.messageId = (db.statusOf m.messageId).map fun _ => c.outcome m := by
  unfold PublishCall.mark PublishCall.outcome
  by_cases hacc : c.accepts m = true
  · rw [if_pos hacc, if_pos hacc]
    exact ⟨_, rfl, statusOf_modify db m.messageId _ _ fun _ => rfl⟩
  · rw [if_neg hacc, if_neg hacc]
    exact ⟨_, rfl, statusOf_modify db m.messageId _ _ fun _ => rfl⟩

/-- The flush of the marks of some messages, on whatever is committed. -/
theorem applyAll_marks_status (c : PublishCall) (messages : List OutboxMessage) (db : Database)
    (hnodup : (messages.map (·.messageId)).Nodup) :
    ∃ db', applyAll Write.apply (messages.map c.mark) db = .ok db' ∧ Marked c messages db db' := by
  induction messages generalizing db with
  | nil => exact ⟨db, rfl, fun _ => Iff.rfl, fun _ _ => rfl, nofun⟩
  | cons m ms ih =>
    obtain ⟨hnotin, hnodup'⟩ := List.nodup_cons.mp hnodup
    obtain ⟨db₁, happly, hother, hself⟩ := apply_mark_status c m db
    obtain ⟨db', hrest, hmarked⟩ := ih db₁ hnodup'
    have hknown : ∀ k, db₁.statusOf k = none ↔ db.statusOf k = none := by
      intro k
      by_cases hk : k = m.messageId
      · rw [hk, hself, Option.map_eq_none_iff]
      · rw [hother k hk]
    refine ⟨db', ?_, ?_, ?_, ?_⟩
    · rw [List.map_cons, applyAll_cons_ok Write.apply happly, hrest]
    · intro k
      rw [hmarked.known, hknown]
    · intro k hk
      rw [List.map_cons, List.mem_cons, not_or] at hk
      rw [hmarked.other k hk.2, hother k hk.1]
    · intro m' hm' hrow
      rcases List.mem_cons.mp hm' with rfl | hm'
      · -- the first mark stays: the other messages have other ids
        rw [hmarked.other _ hnotin, hself]
        obtain ⟨status, hstatus⟩ := Option.ne_none_iff_exists'.mp hrow
        rw [hstatus]
        rfl
      · exact hmarked.marked m' hm' (mt (hknown _).mp hrow)

/-! ## What one step does -/

/-- How far an execution has come: `sent` has been given to the sink. -/
inductive HasSent (c : PublishCall) : Publisher → List OutboxMessage → Prop where
  | listing : HasSent c .idle []
  | publishing (sent rest : List OutboxMessage) :
      HasSent c ⟨.publishing, sent ++ rest, rest, sent.map c.mark,
        (sent.filter c.accepts).length⟩ sent
  | marking (sent rest : List OutboxMessage) (m : OutboxMessage) :
      HasSent c ⟨.marking m (c.accepts m), sent ++ m :: rest, rest, sent.map c.mark,
        (sent.filter c.accepts).length⟩ (sent ++ [m])
  | finished (sent : List OutboxMessage) (result : Except PyErr Nat) :
      HasSent c ⟨.finished result, sent, [], sent.map c.mark,
        (sent.filter c.accepts).length⟩ sent

/-- The steps of an execution, by what others can see of them. -/
inductive PublishStep (c : PublishCall) (w : World) :
    Publisher → List OutboxMessage → Publisher → List OutboxMessage → World → Prop where
  /-- The pending messages are listed. -/
  | list : PublishStep c w .idle [] ⟨.publishing, c.batch w.db, c.batch w.db, [], 0⟩ [] w
  /-- A message is given to the sink. -/
  | give {p p' : Publisher} {sent : List OutboxMessage} (m : OutboxMessage)
      (hmessages : p'.messages = p.messages) (hopen : ¬ p.Finished) (hopen' : ¬ p'.Finished) :
      PublishStep c w p sent p' (sent ++ [m]) { w with deliveries := w.deliveries ++ [c.delivery m] }
  /-- A mark is made, a commit faults, or all is done. -/
  | quiet {p p' : Publisher} {sent : List OutboxMessage} (hmessages : p'.messages = p.messages)
      (hcommitted : p'.Committed ↔ p.Committed) (hfinished : p.Finished → p'.Finished) :
      PublishStep c w p sent p' sent w
  /-- The marks of all messages are committed. -/
  | commit {p p' : Publisher} {db : Database} (hmessages : p'.messages = p.messages)
      (hopen : ¬ p.Finished) (hcommitted : p'.Committed) (hmarked : Marked c p.messages w.db db) :
      PublishStep c w p p.messages p' p.messages { w with db := db }

/-- Every step is one of these. -/
theorem publishStep_of_hasSent {c : PublishCall} {w : World} {p : Publisher}
    {sent : List OutboxMessage} (h : HasSent c p sent)
    (hnodup : (p.messages.map (·.messageId)).Nodup)
    (hknown : ∀ m ∈ p.messages, w.db.statusOf m.messageId ≠ none) :
    ∃ sent', HasSent c (c.step p w).1 sent' ∧
      PublishStep c w p sent (c.step p w).1 sent' (c.step p w).2 := by
  cases h with
  | listing => exact ⟨[], .publishing [] (c.batch w.db), .list⟩
  | publishing sent rest =>
    cases rest with
    | cons m rest =>
      refine ⟨sent ++ [m], ?_⟩
      have hstep : c.step ⟨.publishing, sent ++ m :: rest, m :: rest, sent.map c.mark,
          (sent.filter c.accepts).length⟩ w =
          (⟨.marking m (c.accepts m), sent ++ m :: rest, rest, sent.map c.mark,
            (sent.filter c.accepts).length⟩,
            { w with deliveries := w.deliveries ++ [c.delivery m] }) := by
        simp only [PublishCall.step, PublishCall.delivery, PublishCall.accepts]
        cases c.sink m <;> rfl
      rw [hstep]
      exact ⟨.marking sent rest m, .give m rfl (by simp [Publisher.Finished])
        (by simp [Publisher.Finished])⟩
    | nil =>
      obtain ⟨db, happly, hmarked⟩ := applyAll_marks_status c sent w.db (by simpa using hnodup)
      simp only [List.append_nil, PublishCall.step, DbSession.commit, UnitOfWork.commit, happly]
      cases c.commitFault with
      | some e =>
        exact ⟨sent, .finished sent (.error e), .quiet rfl (by simp [Publisher.Committed])
          fun _ => ⟨_, rfl⟩⟩
      | none =>
        exact ⟨sent, .finished sent (.ok _), .commit rfl (by simp [Publisher.Finished])
          ⟨_, rfl⟩ hmarked⟩
  | marking sent rest m =>
    have hrow : ∃ x, w.db.outbox.find? m.messageId = some x := by
      have hne := hknown m (by simp)
      unfold Database.statusOf at hne
      rw [Ne, Option.map_eq_none_iff] at hne
      exact Option.ne_none_iff_exists'.mp hne
    obtain ⟨x, hx⟩ := hrow
    have hstep : c.step ⟨.marking m (c.accepts m), sent ++ m :: rest, rest, sent.map c.mark,
        (sent.filter c.accepts).length⟩ w =
        (⟨.publishing, (sent ++ [m]) ++ rest, rest, (sent ++ [m]).map c.mark,
          ((sent ++ [m]).filter c.accepts).length⟩, w) := by
      cases hacc : c.accepts m with
      | true => simp [PublishCall.step, OutboxRepository.markPublished, hx, PublishCall.mark, hacc]
      | false => simp [PublishCall.step, OutboxRepository.markFailed, hx, PublishCall.mark, hacc]
    rw [hstep]
    refine ⟨sent ++ [m], .publishing (sent ++ [m]) rest, .quiet (by simp) ?_ ?_⟩
    · simp [Publisher.Committed]
    · simp [Publisher.Finished]
  | finished sent result => exact ⟨sent, .finished sent result, .quiet rfl Iff.rfl id⟩

/-! ## What holds in every interleaving -/

theorem statusOf_of_mem {db : Database} {m : OutboxMessage} (hm : m ∈ db.outbox.rows) :
    db.statusOf m.messageId = some m.status := by
  unfold Database.statusOf
  rw [Table.find?_self _ hm]
  rfl

namespace PublishStep

variable {c : PublishCall} {w w' : World} {p p' : Publisher} {sent sent' : List OutboxMessage}

/-- What was listed stays listed. -/
theorem lists (h : PublishStep c w p sent p' sent' w') {k : String} (hk : p.Lists k) :
    p'.Lists k := by
  unfold Publisher.Lists at *
  cases h with
  | list => cases hk
  | give m hmessages => rwa [hmessages]
  | quiet hmessages => rwa [hmessages]
  | commit hmessages => rwa [hmessages]

/-- A row is there before a step exactly if it is there after it. -/
theorem statusOf_eq_none_iff (h : PublishStep c w p sent p' sent' w') (k : String) :
    w'.db.statusOf k = none ↔ w.db.statusOf k = none := by
  cases h with
  | list => exact Iff.rfl
  | give => exact Iff.rfl
  | quiet => exact Iff.rfl
  | commit _ _ _ hmarked => exact hmarked.known k

/-- A status that a step changes was set by its commit. -/
theorem statusOf_cases (h : PublishStep c w p sent p' sent' w') (k : String)
    (hrow : w.db.statusOf k ≠ none) :
    w'.db.statusOf k = w.db.statusOf k ∨
      (¬ p.Finished ∧ ∃ m ∈ p'.messages, m.messageId = k ∧ p.Lists k ∧
        w'.db.statusOf k = some (c.outcome m)) := by
  cases h with
  | list => exact Or.inl rfl
  | give => exact Or.inl rfl
  | quiet => exact Or.inl rfl
  | commit hmessages hopen _ hmarked =>
    by_cases hk : p.Lists k
    · obtain ⟨m, hm, rfl⟩ := List.mem_map.mp hk
      exact Or.inr ⟨hopen, m, by rw [hmessages]; exact hm, rfl, hk, hmarked.marked m hm hrow⟩
    · exact Or.inl (hmarked.other k hk)

/-- No step makes a row pending again. -/
theorem not_pending (h : PublishStep c w p sent p' sent' w') {k : String}
    (hrow : w.db.statusOf k ≠ none) (hk : w.db.statusOf k ≠ some .PENDING) :
    w'.db.statusOf k ≠ some .PENDING := by
  rcases h.statusOf_cases k hrow with hsame | ⟨_, m, _, _, _, hset⟩
  · rwa [hsame]
  · rw [hset]
    exact fun h => c.outcome_ne_pending m (Option.some.inj h)

/-- The listed messages change only when they are listed. -/
theorem messages_cases (h : PublishStep c w p sent p' sent' w') :
    p'.messages = p.messages ∨ (p.messages = [] ∧ p'.messages = c.batch w.db ∧ w' = w) := by
  cases h with
  | list => exact Or.inr ⟨rfl, rfl, rfl⟩
  | give m hmessages => exact Or.inl hmessages
  | quiet hmessages => exact Or.inl hmessages
  | commit hmessages => exact Or.inl hmessages

theorem nodup (h : PublishStep c w p sent p' sent' w')
    (hp : (p.messages.map (·.messageId)).Nodup) : (p'.messages.map (·.messageId)).Nodup := by
  rcases h.messages_cases with hsame | ⟨_, hbatch, _⟩
  · rwa [hsame]
  · rw [hbatch]
    exact c.nodup_batch w.db

/-- A message that is listed now was listed before or is pending. -/
theorem lists_cases (h : PublishStep c w p sent p' sent' w') {k : String} (hk : p'.Lists k) :
    p.Lists k ∨ (w' = w ∧ w.db.statusOf k = some .PENDING) := by
  rcases h.messages_cases with hsame | ⟨_, hbatch, hw⟩
  · left
    unfold Publisher.Lists at *
    rwa [← hsame]
  · right
    unfold Publisher.Lists at hk
    rw [hbatch] at hk
    obtain ⟨m, hm, rfl⟩ := List.mem_map.mp hk
    obtain ⟨hrow, hpending⟩ := c.mem_batch hm
    exact ⟨hw, by rw [statusOf_of_mem hrow, hpending]⟩

/-- What a step of the execution itself commits is settled. -/
theorem settled (h : PublishStep c w p sent p' sent' w')
    (hp : p.Committed → ∀ k, p.Lists k → w.db.statusOf k ≠ some .PENDING)
    (hknown : ∀ m ∈ p.messages, w.db.statusOf m.messageId ≠ none) :
    p'.Committed → ∀ k, p'.Lists k → w'.db.statusOf k ≠ some .PENDING := by
  intro hcommitted k hk
  cases h with
  | list => obtain ⟨_, hphase⟩ := hcommitted; cases hphase
  | give m _ _ hopen' =>
    obtain ⟨n, hphase⟩ := hcommitted
    exact absurd ⟨_, hphase⟩ hopen'
  | quiet hmessages hiff =>
    unfold Publisher.Lists at hk
    rw [hmessages] at hk
    exact hp (hiff.mp hcommitted) k hk
  | commit hmessages _ _ hmarked =>
    unfold Publisher.Lists at hk
    rw [hmessages] at hk
    obtain ⟨m, hm, rfl⟩ := List.mem_map.mp hk
    show Database.statusOf _ _ ≠ _
    rw [hmarked.marked m hm (hknown m hm)]
    exact fun h => c.outcome_ne_pending m (Option.some.inj h)

/-- An execution that is still open after its step was open before, and has
    changed no status. -/
theorem open_cases (h : PublishStep c w p sent p' sent' w') (hopen : ¬ p'.Finished) :
    ¬ p.Finished ∧ w'.db = w.db := by
  cases h with
  | list => exact ⟨by simp [Publisher.Finished, Publisher.idle], rfl⟩
  | give m _ hopen' => exact ⟨hopen', rfl⟩
  | quiet _ _ hfinished => exact ⟨mt hfinished hopen, rfl⟩
  | commit _ _ hcommitted =>
    obtain ⟨n, hphase⟩ := hcommitted
    exact absurd ⟨_, hphase⟩ hopen

/-- The sink is given what the execution sends, and nothing else. -/
theorem delivered (h : PublishStep c w p sent p' sent' w') (d : Delivery) :
    w'.deliveries.count d + (sent.map c.delivery).count d =
      w.deliveries.count d + (sent'.map c.delivery).count d := by
  cases h with
  | list => rfl
  | give m =>
    rw [List.count_append, List.map_append, List.count_append, List.map_singleton]
    omega
  | quiet => rfl
  | commit => rfl

end PublishStep

/-- What holds of two executions that started on `w₀`, at any point. -/
structure Consistent (calls : Bool → PublishCall) (w₀ : World)
    (s : Config Bool World Publisher) (sent : Bool → List OutboxMessage) : Prop where
  hasSent : ∀ i, HasSent (calls i) (s.locals i) (sent i)
  nodup : ∀ i, ((s.locals i).messages.map (·.messageId)).Nodup
  known : ∀ i, ∀ m ∈ (s.locals i).messages, s.shared.db.statusOf m.messageId ≠ none
  /-- What an execution has committed is pending no more. -/
  settled : ∀ i, (s.locals i).Committed → ∀ k, (s.locals i).Lists k →
    s.shared.db.statusOf k ≠ some .PENDING
  /-- What an execution has listed and not yet committed is pending, unless
      the other execution has listed it as well. -/
  pending : ∀ i, ¬ (s.locals i).Finished → ∀ k, (s.locals i).Lists k →
    s.shared.db.statusOf k = some .PENDING ∨ (s.locals !i).Lists k
  /-- The sink has been given what the two have sent. -/
  delivered : ∀ d, s.shared.deliveries.count d = w₀.deliveries.count d +
    ((sent false).map (calls false).delivery).count d +
    ((sent true).map (calls true).delivery).count d

theorem consistent_bothIdle (calls : Bool → PublishCall) (w : World) :
    Consistent calls w (bothIdle w) fun _ => [] where
  hasSent _ := .listing
  nodup _ := List.nodup_nil
  known _ _ := nofun
  settled _ h := by obtain ⟨_, h⟩ := h; cases h
  pending _ _ _ := nofun
  delivered d := by simp [bothIdle]

variable {calls : Bool → PublishCall} {w₀ : World} {s : Config Bool World Publisher}
  {sent : Bool → List OutboxMessage}

/-- The step of an execution, in a consistent configuration. -/
theorem Consistent.step (h : Consistent calls w₀ s sent) (i : Bool) :
    ∃ sent', HasSent (calls i) ((calls i).step (s.locals i) s.shared).1 sent' ∧
      PublishStep (calls i) s.shared (s.locals i) (sent i)
        ((calls i).step (s.locals i) s.shared).1 sent' ((calls i).step (s.locals i) s.shared).2 :=
  publishStep_of_hasSent (h.hasSent i) (h.nodup i) (h.known i)

/-- Every step of every execution keeps it. -/
theorem Consistent.keep (h : Consistent calls w₀ s sent) (i : Bool) :
    ∃ sent', Consistent calls w₀ (advance (fun i => (calls i).step) s i) sent' := by
  obtain ⟨sent', hsent', hstep⟩ := h.step i
  refine ⟨Function.update sent i sent', ?_, ?_, ?_, ?_, ?_, ?_⟩
  · intro j
    by_cases hj : j = i
    · subst hj
      rw [locals_advance_self, Function.update_self]
      exact hsent'
    · rw [locals_advance_of_ne s hj, Function.update_of_ne hj]
      exact h.hasSent j
  · intro j
    by_cases hj : j = i
    · subst hj
      rw [locals_advance_self]
      exact hstep.nodup (h.nodup j)
    · rw [locals_advance_of_ne s hj]
      exact h.nodup j
  · intro j m hm
    rw [shared_advance, Ne, hstep.statusOf_eq_none_iff]
    by_cases hj : j = i
    · subst hj
      rw [locals_advance_self] at hm
      rcases hstep.lists_cases (List.mem_map_of_mem hm) with hold | ⟨_, hpending⟩
      · obtain ⟨m', hm', hid⟩ := List.mem_map.mp hold
        have hrow := h.known j m' hm'
        rwa [hid] at hrow
      · rw [hpending]
        exact nofun
    · rw [locals_advance_of_ne s hj] at hm
      exact h.known j m hm
  · intro j
    rw [shared_advance]
    by_cases hj : j = i
    · subst hj
      rw [locals_advance_self]
      exact hstep.settled (h.settled j) (h.known j)
    · rw [locals_advance_of_ne s hj]
      intro hcommitted k hk
      obtain ⟨m, hm, rfl⟩ := List.mem_map.mp hk
      exact hstep.not_pending (h.known j m hm) (h.settled j hcommitted _ hk)
  · intro j
    rw [shared_advance]
    by_cases hj : j = i
    · subst hj
      rw [locals_advance_self, locals_advance_of_ne s (Bool.not_ne_self j)]
      intro hopen k hk
      obtain ⟨hopen', hdb⟩ := hstep.open_cases hopen
      rw [hdb]
      rcases hstep.lists_cases hk with hold | ⟨_, hpending⟩
      · exact h.pending j hopen' k hold
      · exact Or.inl hpending
    · -- the other execution may change the status, of a message it has listed
      have hother : (!j) = i := (Bool.eq_not_of_ne (Ne.symm hj)).symm
      rw [locals_advance_of_ne s hj, hother, locals_advance_self]
      intro hopen k hk
      obtain ⟨m, hm, rfl⟩ := List.mem_map.mp hk
      rcases hstep.statusOf_cases _ (h.known j m hm) with hsame | ⟨_, _, _, _, hlists, _⟩
      · rw [hsame]
        refine (h.pending j hopen _ hk).imp_right fun hlists => ?_
        rw [hother] at hlists
        exact hstep.lists hlists
      · exact Or.inr (hstep.lists hlists)
  · intro d
    have hd := h.delivered d
    have hnew := hstep.delivered d
    rw [shared_advance]
    cases i with
    | false =>
      rw [Function.update_self, Function.update_of_ne (by decide)]
      omega
    | true =>
      rw [Function.update_self, Function.update_of_ne (by decide)]
      omega

/-- It holds in every interleaving. -/
theorem Consistent.run (h : Consistent calls w₀ s sent) (is : List Bool) :
    ∃ sent', Consistent calls w₀ ((publishers calls).run s is) sent' := by
  have hstep : ∀ s i, (∃ sent, Consistent calls w₀ s sent) →
      ∃ sent, Consistent calls w₀ (advance (fun i => (calls i).step) s i) sent := by
    intro s i hs
    obtain ⟨sent, hs⟩ := hs
    exact hs.keep i
  exact run_invariant hstep ⟨sent, h⟩ is

/-! ## Accepted at most once by each -/

/-- How often the sink has accepted the message. -/
def World.acceptances (w : World) (messageId : String) : Nat :=
  w.deliveries.count ⟨messageId, true⟩

/-- How many of the two executions have listed the message. -/
def listings (s : Config Bool World Publisher) (messageId : String) : Nat :=
  [false, true].countP fun i => (s.locals i).Lists messageId

theorem HasSent.prefix_messages {c : PublishCall} {p : Publisher} {sent : List OutboxMessage}
    (h : HasSent c p sent) : sent <+: p.messages := by
  cases h with
  | listing => exact List.nil_prefix
  | publishing sent rest => exact List.prefix_append sent rest
  | marking sent rest m => exact ⟨rest, by simp⟩
  | finished sent => exact List.prefix_refl sent

/-- An execution gives a message it has listed to the sink at most once, and
    no other. -/
theorem HasSent.count_delivery_le {c : PublishCall} {p : Publisher} {sent : List OutboxMessage}
    (h : HasSent c p sent) (hnodup : (p.messages.map (·.messageId)).Nodup) (k : String)
    (accepted : Bool) :
    (sent.map c.delivery).count ⟨k, accepted⟩ ≤ if p.Lists k then 1 else 0 := by
  have hcount : (sent.map c.delivery).count ⟨k, accepted⟩ ≤
      ((sent.map c.delivery).map Delivery.messageId).count k :=
    List.count_le_count_map (f := Delivery.messageId)
  have hids : (sent.map c.delivery).map Delivery.messageId = sent.map (·.messageId) := by
    rw [List.map_map]
    rfl
  have hsub : List.Sublist (sent.map (·.messageId)) (p.messages.map (·.messageId)) :=
    h.prefix_messages.sublist.map _
  calc (sent.map c.delivery).count ⟨k, accepted⟩
      ≤ ((sent.map c.delivery).map Delivery.messageId).count k := hcount
    _ ≤ (p.messages.map (·.messageId)).count k := by
        rw [hids]
        exact hsub.count_le _
    _ ≤ if p.Lists k then 1 else 0 := by
        by_cases hlists : p.Lists k
        · rw [if_pos hlists]
          exact List.nodup_iff_count_le_one.mp hnodup _
        · rw [if_neg hlists, List.count_eq_zero.mpr hlists]

theorem Consistent.acceptances_le (h : Consistent calls w₀ s sent) (k : String) :
    s.shared.acceptances k ≤ w₀.acceptances k + listings s k := by
  have hd := h.delivered ⟨k, true⟩
  have hfalse := (h.hasSent false).count_delivery_le (h.nodup false) k true
  have htrue := (h.hasSent true).count_delivery_le (h.nodup true) k true
  unfold World.acceptances listings
  simp only [List.countP_cons, List.countP_nil, decide_eq_true_eq]
  omega

/-! ## When a published message is undone -/

/-- Both executions have listed the message, and the sink refuses it to one
    of them. -/
def Contested (calls : Bool → PublishCall) (s : Config Bool World Publisher)
    (messageId : String) : Prop :=
  (∀ i, (s.locals i).Lists messageId) ∧
    ∃ i, ∃ m ∈ (s.locals i).messages, m.messageId = messageId ∧ (calls i).accepts m = false

/-- One step. -/
theorem Consistent.published_advance (h : Consistent calls w₀ s sent) (i : Bool) {k : String}
    (hk : s.shared.db.statusOf k = some .PUBLISHED ∨ Contested calls s k) :
    (advance (fun i => (calls i).step) s i).shared.db.statusOf k = some .PUBLISHED ∨
      Contested calls (advance (fun i => (calls i).step) s i) k := by
  obtain ⟨sent', _, hstep⟩ := h.step i
  have hlists : ∀ j, (s.locals j).Lists k →
      ((advance (fun i => (calls i).step) s i).locals j).Lists k := by
    intro j hj
    by_cases hji : j = i
    · subst hji
      rw [locals_advance_self]
      exact hstep.lists hj
    · rwa [locals_advance_of_ne s hji]
  rcases hk with hpublished | ⟨hboth, j, m, hm, hid, hrefused⟩
  · have hrow : s.shared.db.statusOf k ≠ none := by
      rw [hpublished]
      exact nofun
    rcases hstep.statusOf_cases k hrow with hsame | ⟨hopen, m, hm, hid, hmine, hset⟩
    · left
      rw [shared_advance, hsame, hpublished]
    · by_cases hacc : (calls i).accepts m = true
      · left
        rw [shared_advance, hset, PublishCall.outcome, if_pos hacc]
      · -- the message is not pending, so the other execution had listed it
        right
        rcases h.pending i hopen k hmine with hpending | hother
        · rw [hpublished] at hpending
          cases hpending
        · refine ⟨fun j => hlists j ?_, i, m, ?_, hid, Bool.not_eq_true _ ▸ hacc⟩
          · by_cases hji : j = i
            · rw [hji]
              exact hmine
            · have hj : j = !i := Bool.eq_not_of_ne hji
              rw [hj]
              exact hother
          · rw [locals_advance_self]
            exact hm
  · refine Or.inr ⟨fun j => hlists j (hboth j), j, m, ?_, hid, hrefused⟩
    by_cases hji : j = i
    · subst hji
      rw [locals_advance_self]
      rcases hstep.messages_cases with hsame | ⟨hnil, _⟩
      · rwa [hsame]
      · rw [hnil] at hm
        cases hm
    · rwa [locals_advance_of_ne s hji]

/-- Any interleaving. -/
theorem Consistent.published_run (h : Consistent calls w₀ s sent) {k : String}
    (hk : s.shared.db.statusOf k = some .PUBLISHED) (is : List Bool) :
    let s' := (publishers calls).run s is
    s'.shared.db.statusOf k = some .PUBLISHED ∨ Contested calls s' k := by
  let I : Config Bool World Publisher → Prop := fun s =>
    (∃ sent, Consistent calls w₀ s sent) ∧
      (s.shared.db.statusOf k = some .PUBLISHED ∨ Contested calls s k)
  have hstep : ∀ s i, I s → I (advance (fun i => (calls i).step) s i) := by
    intro s i hI
    obtain ⟨⟨sent, hs⟩, hpublished⟩ := hI
    exact ⟨hs.keep i, hs.published_advance i hpublished⟩
  exact (run_invariant hstep ⟨⟨sent, h⟩, Or.inl hk⟩ is).2

/-! ## One after the other -/

theorem PublishCall.step_of_finished {c : PublishCall} {p : Publisher} {w : World}
    (h : p.Finished) : c.step p w = (p, w) := by
  obtain ⟨result, hresult⟩ := h
  unfold PublishCall.step
  rw [hresult]

theorem HasSent.messages_of_listing {c : PublishCall} {p : Publisher} {sent : List OutboxMessage}
    (h : HasSent c p sent) (hlisting : p.phase = .listing) : p.messages = [] := by
  cases h with
  | listing => rfl
  | publishing => cases hlisting
  | marking => cases hlisting
  | finished => cases hlisting

theorem listings_le_one {i : Bool} {k : String}
    (h : (s.locals i).Lists k → ¬ (s.locals !i).Lists k) : listings s k ≤ 1 := by
  have hboth : ¬ ((s.locals false).Lists k ∧ (s.locals true).Lists k) := by
    intro hboth
    cases i with
    | false => exact h hboth.1 hboth.2
    | true => exact h hboth.2 hboth.1
  unfold listings
  simp only [List.countP_cons, List.countP_nil, decide_eq_true_eq]
  by_cases hfalse : (s.locals false).Lists k
  · rw [if_neg fun htrue => hboth ⟨hfalse, htrue⟩]
    split <;> omega
  · rw [if_neg hfalse]
    split <;> omega

/-- An execution that lists when the other one has committed lists none of
    its messages. -/
theorem Consistent.disjoint_run (h : Consistent calls w₀ s sent) {i : Bool}
    (hlisting : (s.locals i).phase = .listing) (hother : (s.locals !i).Committed)
    (is : List Bool) (k : String) :
    let s' := (publishers calls).run s is
    (s'.locals i).Lists k → ¬ (s'.locals !i).Lists k := by
  let I : Config Bool World Publisher → Prop := fun s =>
    (∃ sent, Consistent calls w₀ s sent) ∧ (s.locals !i).Committed ∧
      ((s.locals i).Lists k → ¬ (s.locals !i).Lists k)
  have hstep : ∀ s j, I s → I (advance (fun i => (calls i).step) s j) := by
    intro s j hI
    obtain ⟨⟨sent, hs⟩, hcommitted, hdisjoint⟩ := hI
    refine ⟨hs.keep j, ?_⟩
    by_cases hj : j = i
    · subst hj
      rw [locals_advance_self, locals_advance_of_ne s (Bool.not_ne_self j)]
      refine ⟨hcommitted, ?_⟩
      intro hlists hlisted
      obtain ⟨sent', _, hpublish⟩ := hs.step j
      rcases hpublish.lists_cases hlists with hold | ⟨_, hpending⟩
      · exact hdisjoint hold hlisted
      · exact hs.settled (!j) hcommitted k hlisted hpending
    · -- the execution that has committed does nothing more
      have hj' : j = !i := Bool.eq_not_of_ne hj
      subst hj'
      obtain ⟨n, hphase⟩ := hcommitted
      rw [locals_advance_self, locals_advance_of_ne s (Bool.not_ne_self i).symm,
        PublishCall.step_of_finished ⟨_, hphase⟩]
      exact ⟨⟨n, hphase⟩, hdisjoint⟩
  have hstart : (s.locals i).Lists k → ¬ (s.locals !i).Lists k := by
    intro hlists
    unfold Publisher.Lists at hlists
    rw [(h.hasSent i).messages_of_listing hlisting] at hlists
    cases hlists
  exact (run_invariant hstep ⟨⟨sent, h⟩, hother, hstart⟩ is).2.2

/-- **Two publishers.** In every interleaving, the sink accepts a message at
    most once for each execution that has listed it. A message once
    committed as published stays so, unless both have listed it and the
    sink refuses it to one of them. No message is listed by both if one
    lists after the other has committed. -/
theorem two_publishers (calls : Bool → PublishCall) (w : World) (is₁ is₂ : List Bool)
    (k : String) :
    let s₁ := (publishers calls).run (bothIdle w) is₁
    let s₂ := (publishers calls).run s₁ is₂
    s₂.shared.acceptances k ≤ w.acceptances k + listings s₂ k ∧
      (s₁.shared.db.statusOf k = some .PUBLISHED →
        s₂.shared.db.statusOf k = some .PUBLISHED ∨ Contested calls s₂ k) ∧
      (∀ i, (s₁.locals i).phase = .listing → (s₁.locals !i).Committed → listings s₂ k ≤ 1) := by
  intro s₁ s₂
  obtain ⟨sent₁, h₁⟩ := (consistent_bothIdle calls w).run is₁
  obtain ⟨sent₂, h₂⟩ := h₁.run is₂
  refine ⟨h₂.acceptances_le k, ?_, ?_⟩
  · intro hpublished
    exact h₁.published_run hpublished is₂
  · intro i hlisting hother
    exact listings_le_one (h₁.disjoint_run hlisting hother is₂ k)

/-! ### Two publishers on one batch

    Two events are pending. Both executions list them before either
    commits; the sink accepts the first event from both, and the second
    from the execution that commits first. -/

namespace TwoPublishers

def event (messageId : String) : OutboxMessage where
  messageId := messageId
  aggregateType := "Order"
  aggregateId := "ORD-1"
  eventType := .OrderEnrichmentSucceeded
  payloadJson := .dict [("event", .str "NoRulesMatched"), ("order_id", .str "ORD-1")]
  status := .PENDING
  createdAt := Sample.nine
  publishedAt := none

def world : World :=
  { World.fresh Sample.rules with
    db := { Database.fresh Sample.rules with
      outbox := ⟨[event "outbox-1", event "outbox-2"], by decide⟩ } }

def publishCalls (i : Bool) : PublishCall where
  batchSize := 100
  scan := .physical
  sink m := if i && m.messageId = "outbox-2"
    then .error ⟨.other "ConnectionError", "broker unreachable"⟩ else .ok ()
  markedAt _ := Sample.ten
  commitFault := none

/-- Both list; then one and then the other publishes, marks and commits. -/
def halfway : Config Bool World Publisher :=
  (publishers publishCalls).run (bothIdle world) ([false, true] ++ List.replicate 5 false)

def done : Config Bool World Publisher :=
  (publishers publishCalls).run halfway (List.replicate 5 true)

theorem delivered_twice_and_undone :
    done.shared.acceptances "outbox-1" = 2 ∧
      halfway.shared.db.statusOf "outbox-2" = some .PUBLISHED ∧
      done.shared.db.statusOf "outbox-2" = some .FAILED := by
  decide

end TwoPublishers

end RulesEnrichment
