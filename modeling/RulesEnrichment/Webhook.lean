import RulesEnrichment.Backlog

/-! # The daemon and its webhook

    The daemon with `WebhookOutboxSink`, and the requests that go to the
    webhook, kept over all lifetimes of the daemon.

    * `webhook_posts`: a request is about an event that is stored, and an
      event is marked by the answer to a request of its own. Where no publish
      cycle fails to commit, there is one request for each event, and never
      a second one, also not for an event that the webhook refused. -/

namespace RulesEnrichment

open StepMachine Python

/-! ## The posting daemon -/

/-- A POST to the webhook. -/
structure Post where
  messageId : String
  url : String
  body : PyVal
  outcome : Outcome

/-- It was answered, and with success. -/
def Post.acknowledged (x : Post) : Bool :=
  match x.outcome with
  | .response r => r.isSuccess
  | .raised _ => false

/-- The body that is sent for a message. -/
def OutboxMessage.body (m : OutboxMessage) : PyVal := webhookBody m.eventType.value m.payloadJson

/-- The POST that `WebhookOutboxSink` makes for a message. -/
def PublishEnv.postOf (e : PublishEnv) (url : String) (m : OutboxMessage) : Post :=
  ⟨m.messageId, url, m.body, e.post m url m.body⟩

/-- The requests of a publish cycle. -/
def PublishEnv.posts (e : PublishEnv) (url : String) (w : World) : List Post :=
  ((e.call (.webhook url)).batch w.db).map (e.postOf url)

/-- The daemon process, and the requests its webhook has got. -/
structure PostingDaemon where
  process : DaemonProcess
  posts : List Post

/-- The requests of a round: there are none if its poll worker raises. -/
def Round.posts (f : EnrichmentFacade) (url : String) (r : Round) : DaemonProcess → List Post
  | .stopped _ _ => []
  | .running d =>
    let (result, d') := PollingWorker.runOnce f r.cycle d
    if result.isOk then r.publish.posts url d'.world else []

namespace PostingDaemon

def step (f : EnrichmentFacade) (url : String) (s : PostingDaemon) (i : DaemonProcess.Input) :
    PostingDaemon where
  process := s.process.step ⟨f, .webhook url⟩ i
  posts := s.posts ++
    match i with
    | .round r => r.posts f url s.process
    | .restart => []

/-- Process after process; whatever can fail may fail. -/
def machine (f : EnrichmentFacade) (url : String) : Machine PostingDaemon DaemonProcess.Input where
  init s := ∃ rules, s = ⟨.start (World.fresh rules), []⟩
  guard _ _ := True
  step := step f url

/-- The publish cycle of the round can commit. -/
def Commits : DaemonProcess.Input → Prop
  | .round r => r.publish.commitFault = none
  | .restart => True

end PostingDaemon

/-! ## The requests of a publish cycle -/

section

variable {e : PublishEnv} {url : String}

theorem acknowledged_postOf (m : OutboxMessage) :
    (e.postOf url m).acknowledged = ((e.call (.webhook url)).sink m).isOk := by
  have hsink : (e.call (.webhook url)).sink m =
      (OutboxSink.webhook url).publish (e.post m) e.statusMessage m.eventType.value m.payloadJson := rfl
  have houtcome : (e.postOf url m).outcome = e.post m url m.body := rfl
  rw [hsink]
  unfold Post.acknowledged OutboxSink.publish
  rw [houtcome]
  unfold OutboxMessage.body
  simp only
  rcases e.post m url (webhookBody m.eventType.value m.payloadJson) with r | err
  · simp only
    cases r.isSuccess <;> rfl
  · rfl

theorem deliveries_publishOutbox (c : PublishCall) (w : World) :
    (publishOutbox c w).2.deliveries = w.deliveries ++ PublishCycle.passed ⟨w, c⟩ := by
  rw [PublishCycle.passed_eq]
  rcases publishOutbox_cases c w with ⟨e, _, hres⟩ | ⟨db, _, _, hres⟩
  · rw [hres]
    rfl
  · rw [hres]
    rfl

/-- What is recorded as delivered are the requests, in their order. -/
theorem passed_posts (w : World) : PublishCycle.passed ⟨w, e.call (.webhook url)⟩ =
    (e.posts url w).map fun x => ⟨x.messageId, x.acknowledged⟩ := by
  rw [PublishCycle.passed_eq]
  unfold PublishEnv.posts
  rw [List.map_map]
  refine List.map_congr_left fun m _ => ?_
  unfold PublishCall.delivery PublishCall.accepts
  rw [Function.comp_apply, acknowledged_postOf]
  rfl

end

/-! ## Requests and rows -/

/-- The request is about this message. -/
structure Post.IsFor (url : String) (m : OutboxMessage) (x : Post) : Prop where
  messageId : x.messageId = m.messageId
  url : x.url = url
  body : x.body = m.body

/-- The requests are about rows, and a row that is not pending is marked by
    the answer to a request. -/
structure Posted (url : String) (posts : List Post) (rows : List OutboxMessage) : Prop where
  sent : ∀ x ∈ posts, ∃ m ∈ rows, x.IsFor url m
  marked : ∀ m ∈ rows, m.status ≠ .PENDING →
    ∃ x ∈ posts, x.IsFor url m ∧ x.acknowledged = decide (m.status = .PUBLISHED)

namespace Posted

variable {url : String} {posts : List Post} {rows : List OutboxMessage}

/-- New events wait. -/
theorem enqueues {n : Nat} {rows' : List OutboxMessage} (h : Posted url posts rows)
    (hrows : Enqueues n rows rows') : Posted url posts rows' := by
  obtain ⟨ms, rfl, _, hpending⟩ := hrows
  constructor
  · intro x hx
    obtain ⟨m, hm, hfor⟩ := h.sent x hx
    exact ⟨m, List.mem_append_left _ hm, hfor⟩
  · intro m hm hstatus
    rcases List.mem_append.mp hm with hm | hm
    · exact h.marked m hm hstatus
    · exact absurd (hpending m hm) hstatus

/-- Marking a message does not change what a request is about. -/
theorem isFor_settle {c : PublishCall} {m : OutboxMessage} {x : Post} (h : x.IsFor url m) :
    x.IsFor url (c.settle m) where
  messageId := by rw [c.messageId_settle]; exact h.messageId
  url := h.url
  body := by
    unfold OutboxMessage.body
    rw [c.eventType_settle, c.payloadJson_settle]
    exact h.body

/-- A publish cycle, committed or rolled back. -/
theorem publish {w : World} (h : Posted url posts w.db.outbox.rows) (e : PublishEnv) :
    Posted url (posts ++ e.posts url w)
      (publishOutbox (e.call (.webhook url)) w).2.db.outbox.rows := by
  let c : PublishCycle := ⟨w, e.call (.webhook url)⟩
  show Posted url (posts ++ e.posts url w) c.after.db.outbox.rows
  have hsent : ∀ x ∈ posts ++ e.posts url w, ∃ m ∈ w.db.outbox.rows, x.IsFor url m := by
    intro x hx
    rcases List.mem_append.mp hx with hx | hx
    · exact h.sent x hx
    · obtain ⟨m, hm, rfl⟩ := List.mem_map.mp hx
      exact ⟨m, (c.call.mem_batch hm).1, rfl, rfl, rfl⟩
  have hbefore : ∀ m ∈ w.db.outbox.rows, m.status ≠ .PENDING →
      ∃ x ∈ posts ++ e.posts url w, x.IsFor url m ∧
        x.acknowledged = decide (m.status = .PUBLISHED) := by
    intro m hm hstatus
    obtain ⟨x, hx, hmarked⟩ := h.marked m hm hstatus
    exact ⟨x, List.mem_append_left _ hx, hmarked⟩
  rcases c.rollback_or_effect with ⟨_, _, hsame⟩ | ⟨_, heff⟩
  · rw [hsame]
    exact ⟨hsent, hbefore⟩
  · rw [heff.rows]
    constructor
    · intro x hx
      obtain ⟨m, hm, hfor⟩ := hsent x hx
      refine ⟨_, List.mem_map_of_mem hm, ?_⟩
      show x.IsFor url (if _ then c.call.settle m else m)
      split
      · exact isFor_settle hfor
      · exact hfor
    · intro m' hm' hstatus
      obtain ⟨m, hm, rfl⟩ := List.mem_map.mp hm'
      by_cases hin : m.messageId ∈ (c.call.batch c.world.db).map (·.messageId)
      · -- marked in this cycle, by the answer to its request
        have hrow : c.rowAfter (c.call.batch c.world.db) m = c.call.settle m := if_pos hin
        have hbatch := (heff.mem_batch_iff hm).mp hin
        refine ⟨e.postOf url m, List.mem_append_right _ (List.mem_map_of_mem hbatch), ?_, ?_⟩
        · rw [hrow]
          exact isFor_settle ⟨rfl, rfl, rfl⟩
        · rw [hrow, acknowledged_postOf]
          exact (congrArg Delivery.accepted (c.call.delivery_settle m)).symm
      · have hrow : c.rowAfter (c.call.batch c.world.db) m = m := if_neg hin
        rw [hrow] at hstatus ⊢
        exact hbefore m hm hstatus

end Posted

/-! ## Over all runs -/

namespace PostingDaemon

variable {f : EnrichmentFacade} {url : String} {s : PostingDaemon}

/-- A round is its cycle, and a publish cycle with its requests unless the
    poll worker raised. -/
theorem round_posts (f : EnrichmentFacade) (url : String) (r : Round) (d : Daemon) :
    let b : Bootstrap := ⟨f, .webhook url⟩
    let w := (PollingWorker.runOnce f r.cycle d).2.world
    (r.posts f url (.running d) = [] ∧ (DaemonProcess.round b r (.running d)).world = w) ∨
      (r.posts f url (.running d) = r.publish.posts url w ∧
        (DaemonProcess.round b r (.running d)).world =
          (publishOutbox (r.publish.call (.webhook url)) w).2) := by
  intro b w
  rw [DaemonProcess.world_round]
  rw [show r.posts f url (.running d) =
    if (PollingWorker.runOnce f r.cycle d).1.isOk then r.publish.posts url w else [] from rfl]
  rcases DaemonProcess.round_cases b r d with ⟨e, herr, hres⟩ | ⟨hok, hres⟩
  · have herr' : (PollingWorker.runOnce f r.cycle d).1 = .error e := herr
    rw [hres, herr']
    exact Or.inl ⟨rfl, rfl⟩
  · have hok' : (PollingWorker.runOnce f r.cycle d).1.isOk = true := hok
    rw [hres, if_pos hok']
    exact Or.inr ⟨rfl, rfl⟩

/-- The requests and the store. -/
structure InStep (url : String) (s : PostingDaemon) : Prop where
  posted : Posted url s.posts s.process.world.db.outbox.rows
  logged : (s.posts.map fun x => ⟨x.messageId, x.acknowledged⟩) = s.process.world.deliveries

theorem InStep.preserve_step (h : InStep url s) (i : DaemonProcess.Input) :
    InStep url (s.step f url i) := by
  have hquiet : ∀ {p : DaemonProcess}, p.world = s.process.world →
      InStep url ⟨p, s.posts ++ []⟩ := by
    intro p hp
    rw [List.append_nil]
    exact ⟨by rw [hp]; exact h.posted, by rw [hp]; exact h.logged⟩
  obtain ⟨p, posts⟩ := s
  match i, p with
  | .restart, p => exact hquiet rfl
  | .round r, .stopped e w => exact hquiet rfl
  | .round r, .running d =>
    obtain ⟨hrows, hsame⟩ := cycle_enqueues f r.cycle d
    have hcycle := h.posted.enqueues hrows
    rcases round_posts f url r d with ⟨hnone, hworld⟩ | ⟨hposts, hworld⟩
    · show InStep url ⟨DaemonProcess.round _ r (.running d), posts ++ r.posts f url (.running d)⟩
      rw [hnone, List.append_nil]
      exact ⟨by rw [hworld]; exact hcycle, by rw [hworld, hsame]; exact h.logged⟩
    · show InStep url ⟨DaemonProcess.round _ r (.running d), posts ++ r.posts f url (.running d)⟩
      rw [hposts]
      refine ⟨by rw [hworld]; exact hcycle.publish r.publish, ?_⟩
      show List.map _ (posts ++ _) = (DaemonProcess.round _ r (.running d)).world.deliveries
      rw [hworld, List.map_append, ← passed_posts, deliveries_publishOutbox, hsame]
      exact congrArg (· ++ _) h.logged

theorem inStep_run (h : InStep url s) (is : List DaemonProcess.Input) :
    InStep url ((machine f url).run s is) := by
  induction is generalizing s with
  | nil => exact h
  | cons i is ih => exact ih (h.preserve_step i)

theorem deliveredOnce_run (h : DaemonProcess.DeliveredOnce s.process.world)
    {is : List DaemonProcess.Input} (hcommits : ∀ i ∈ is, Commits i) :
    DaemonProcess.DeliveredOnce ((machine f url).run s is).process.world := by
  induction is generalizing s with
  | nil => exact h
  | cons i is ih =>
    obtain ⟨hi, hrest⟩ := List.forall_mem_cons.mp hcommits
    refine ih ?_ hrest
    match i with
    | .restart => exact h
    | .round r => exact h.preserve_round (b := ⟨f, .webhook url⟩) hi

/-- **The webhook.** Over all lifetimes of the daemon, each of which ends
    between rounds or by an exception, and whatever fails, every request to
    the webhook is about a stored event, with its type and its payload, and
    an event is marked as published, or as failed, only if a request about
    it was acknowledged, or was not. Where every publish cycle commits,
    there is exactly one request for each event that is not pending, and
    its answer is the mark: an event that the webhook refused is not sent
    again. -/
theorem webhook_posts (f : EnrichmentFacade) (url : String)
    (rules : KeyedTable.Table EnrichmentRule EnrichmentRule.ruleId)
    (is : List DaemonProcess.Input) :
    let s := (machine f url).run ⟨.start (World.fresh rules), []⟩ is
    let rows := s.process.world.db.outbox.rows
    (∀ x ∈ s.posts, ∃ m ∈ rows, x.IsFor url m) ∧
    (∀ m ∈ rows, m.status ≠ .PENDING →
      ∃ x ∈ s.posts, x.IsFor url m ∧ (x.acknowledged = true ↔ m.status = .PUBLISHED)) ∧
    ((∀ i ∈ is, Commits i) → (s.posts.map fun x => (x.messageId, x.acknowledged)).Perm
      ((rows.filter (·.status ≠ .PENDING)).map
        fun m => (m.messageId, decide (m.status = .PUBLISHED)))) := by
  intro s rows
  have hinv : InStep url s := by
    refine inStep_run (s := ⟨.start (World.fresh rules), []⟩) ⟨⟨?_, ?_⟩, rfl⟩ is
    · exact fun x hx => absurd hx List.not_mem_nil
    · exact fun m hm => absurd hm List.not_mem_nil
  refine ⟨hinv.posted.sent, ?_, ?_⟩
  · intro m hm hstatus
    obtain ⟨x, hx, hfor, hmarked⟩ := hinv.posted.marked m hm hstatus
    exact ⟨x, hx, hfor, by rw [hmarked, decide_eq_true_eq]⟩
  · intro hcommits
    have honce : DaemonProcess.DeliveredOnce s.process.world :=
      deliveredOnce_run (s := ⟨.start (World.fresh rules), []⟩)
        (DaemonProcess.DeliveredOnce.fresh rules) hcommits
    unfold DaemonProcess.DeliveredOnce at honce
    rw [← hinv.logged] at honce
    have hpairs := honce.map fun x : Delivery => (x.messageId, x.accepted)
    rwa [List.map_map, List.map_map] at hpairs

/-- A webhook that is down gets the event of an order once. -/
example : ((machine Sample.facade "http://localhost/events").run
    ⟨.start (World.fresh Sample.rules), []⟩
    [.round (Sample.round [Sample.order "ORD-1" Sample.nine]), .round (Sample.round []),
      .restart, .round (Sample.round [])]).posts.map Post.acknowledged = [false] := by
  decide +kernel

end PostingDaemon

end RulesEnrichment
