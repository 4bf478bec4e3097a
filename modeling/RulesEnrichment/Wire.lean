import RulesEnrichment.DaemonRuns
import RulesEnrichment.Requests

/-! # The daemon and what it sends

    The daemon with its HTTP client: the poll of a round and the
    submissions of its orders are requests of `ManhattanSimulatorHttpClient`,
    and every request that goes out is kept, over all lifetimes of the
    daemon, each of which ends between rounds or by an exception. So the
    retries are part of the run, below the submissions that the use cases
    know of.

    * `wire_per_submission`: the POST requests are those of the submissions,
      one group after another, and a submission counts as accepted if and
      only if its last request was acknowledged.
    * `success_acknowledged`: a success event stands for an acknowledged
      request for its order. -/

namespace RulesEnrichment

open StepMachine Python

/-! ## The wired daemon -/

/-- What the environment does during a round, down to the requests. -/
structure WiredRound where
  started : DateTime
  runId : String
  /-- What comes of the requests of the round. -/
  network : Network
  /-- `response.json()` of the answer to the poll. -/
  read : String → Except PyErr (List OrderDocument)
  /-- The environment of the order at a position of the batch, but for the
      answer to its submission. -/
  env : Nat → OrderEnv
  publish : PublishEnv

namespace WiredRound

variable (client : ManhattanSimulatorHttpClient) (rt : Runtime) (r : WiredRound)

/-- `submit_enrichment`, as the use cases see it. -/
def submit (orderId : String) (payload : PyVal) (correlationId : String) : Except PyErr Unit :=
  (client.submitEnrichment r.network orderId payload correlationId).1

def cycle : Cycle where
  started := r.started
  runId := r.runId
  poll updatedSince limit := (client.pollOrders r.network rt r.read updatedSince limit).1
  env i := { r.env i with submit := r.submit client }

def round : Round := ⟨r.cycle client rt, r.publish⟩

end WiredRound

/-- The daemon process, and the requests that have gone out. -/
structure WiredDaemon where
  process : DaemonProcess
  wire : List Exchange

/-- The requests of a submission. -/
def submissionExchanges (client : ManhattanSimulatorHttpClient) (net : Network) (s : Submission) :
    List Exchange :=
  (client.submitEnrichment net s.orderId s.payload s.correlationId).2

/-- A submission that a call makes is one `submit_enrichment`: the call gets
    its answer, and the requests of the record that it leaves are those that
    were sent. -/
theorem ProcessCall.submitEnrichment_sends (uc : ProcessOrderUseCase) {c : ProcessCall}
    {client : ManhattanSimulatorHttpClient} {r : WiredRound} (hsubmit : c.submit = r.submit client)
    (d : EnrichmentDecision) (w : World) :
    let sent := client.submitEnrichment r.network c.order.orderId (c.payload uc d) c.correlationId
    ∃ x, c.submitEnrichment uc d w = (sent.1, { w with submissions := w.submissions ++ [x] }) ∧
      submissionExchanges client r.network x = sent.2 := by
  intro sent
  have hanswer : c.answer uc d = sent.1 := by
    unfold ProcessCall.answer
    rw [hsubmit]
    rfl
  unfold ProcessCall.submitEnrichment
  rw [hanswer]
  cases sent.1 with
  | error e => exact ⟨_, rfl, rfl⟩
  | ok u => exact ⟨_, rfl, rfl⟩

/-- The requests of a round: those of the poll, and those of the submissions
    that were made in it, which are found again by their records. -/
def WiredRound.exchanges (client : ManhattanSimulatorHttpClient) (b : Bootstrap) (r : WiredRound) :
    DaemonProcess → List Exchange
  | .stopped _ _ => []
  | .running d =>
    let rt := b.facade.process.runtime
    let after := (DaemonProcess.round b (r.round client rt) (.running d)).world
    (client.pollOrders r.network rt r.read d.updatedSince b.facade.pollBatchSize).2 ++
      (after.submissions.drop d.world.submissions.length).flatMap
        (submissionExchanges client r.network)

namespace WiredDaemon

inductive Input where
  | round (r : WiredRound)
  | restart

/-- The input that the daemon process gets. -/
def Input.process (client : ManhattanSimulatorHttpClient) (b : Bootstrap) :
    Input → DaemonProcess.Input
  | .round r => .round (r.round client b.facade.process.runtime)
  | .restart => .restart

def step (client : ManhattanSimulatorHttpClient) (b : Bootstrap) (s : WiredDaemon) (i : Input) :
    WiredDaemon where
  process := s.process.step b (i.process client b)
  wire := s.wire ++
    match i with
    | .round r => r.exchanges client b s.process
    | .restart => []

/-- The promises of the id generator and of `random.uniform`. -/
def Promised (client : ManhattanSimulatorHttpClient) (b : Bootstrap) (s : WiredDaemon)
    (i : Input) : Prop :=
  s.process.FreshIds b (i.process client b) ∧
    match i with
    | .round r => r.network.JittersWithin client.retry
    | .restart => True

def machine (client : ManhattanSimulatorHttpClient) (b : Bootstrap) : Machine WiredDaemon Input where
  init s := ∃ rules, s = ⟨.start (World.fresh rules), []⟩
  guard := Promised client b
  step := step client b

/-- The process runs as if nobody kept the requests. -/
theorem simulates_process (client : ManhattanSimulatorHttpClient) (b : Bootstrap) :
    Simulates (machine client b) (DaemonProcess.machine b) fun s p => s.process = p where
  init s hs := by
    obtain ⟨rules, rfl⟩ := hs
    exact ⟨_, ⟨rules, rfl⟩, rfl⟩
  step s p i hsp hguard := by
    refine ⟨[i.process client b], ?_, ?_⟩
    · rw [Machine.legal_cons, ← hsp]
      exact ⟨hguard.1, fun _ hp => absurd hp List.not_mem_nil⟩
    · rw [← hsp]
      rfl

end WiredDaemon

/-! ## The submissions of a round -/

theorem handleOrders_submissions {f : EnrichmentFacade} {env : Nat → OrderEnv}
    {submit : String → PyVal → String → Except PyErr Unit} (henv : ∀ i, (env i).submit = submit)
    (orders : List ExternalOrder) (i : Nat) (s : LoopState) :
    ∃ ss, (f.handleOrders env i orders s).2.world.submissions = s.world.submissions ++ ss ∧
      ∀ x ∈ ss, x.accepted = (submit x.orderId x.payload x.correlationId).isOk := by
  induction orders generalizing i s with
  | nil => exact ⟨[], (List.append_nil _).symm, fun _ hx => absurd hx List.not_mem_nil⟩
  | cons order orders ih =>
    unfold EnrichmentFacade.handleOrders
    cases hh : f.handleOrder (env i) order s with
    | error e => exact ⟨[], (List.append_nil _).symm, fun _ hx => absurd hx List.not_mem_nil⟩
    | ok s' =>
      obtain ⟨rules, _, hworld, _, _⟩ := EnrichmentFacade.handleOrder_ok hh
      obtain ⟨one, hone, _, haccepted⟩ :=
        ((env i).processCall order rules).execute_submissions f.process s.world
      rw [← hworld] at hone
      obtain ⟨rest, hrest, haccepted'⟩ := ih (i + 1) s'
      refine ⟨one ++ rest, ?_, ?_⟩
      · simp only
        rw [hrest, hone, List.append_assoc]
      · intro x hx
        rcases List.mem_append.mp hx with hx | hx
        · rw [← henv i]
          exact (haccepted x hx).accepted
        · exact haccepted' x hx

/-- The submissions of a round are those of its cycle. -/
theorem round_submissions (b : Bootstrap) {r : Round} (d : Daemon)
    {submit : String → PyVal → String → Except PyErr Unit}
    (henv : ∀ i, (r.cycle.env i).submit = submit) :
    ∃ ss, (DaemonProcess.round b r (.running d)).world.submissions = d.world.submissions ++ ss ∧
      ∀ x ∈ ss, x.accepted = (submit x.orderId x.payload x.correlationId).isOk := by
  rw [DaemonProcess.world_round, (DaemonProcess.round_cycleEnd b r d).2.2.1]
  unfold PollingWorker.cycleEnd
  rcases b.facade.runOnce_cases r.cycle d.updatedSince d.world d.cache with
    ⟨e, _, hend⟩ | ⟨orders, _, hend⟩
  · rw [hend]
    exact ⟨[], (List.append_nil _).symm, fun _ hx => absurd hx List.not_mem_nil⟩
  · rw [hend]
    exact handleOrders_submissions henv orders 0 _

/-! ## One group of requests for each submission -/

/-- The request changes something at the external API. -/
def Exchange.isPost (e : Exchange) : Bool := e.request.method = "POST"

/-- These are the requests of the submission. -/
structure SentFor (client : ManhattanSimulatorHttpClient) (s : Submission) (log : List Exchange) :
    Prop extends ManhattanSimulatorHttpClient.Attempted client.retry.maxAttempts
      (client.submission s.orderId s.payload s.correlationId) log where
  accepted : s.accepted = true ↔ ∃ last, log.getLast? = some last ∧ last.acknowledged = true

namespace ManhattanSimulatorHttpClient

variable {client : ManhattanSimulatorHttpClient} {net : Network}

theorem submitEnrichment_eq (orderId : String) (payload : PyVal) (correlationId : String) :
    client.submitEnrichment net orderId payload correlationId =
      ((client.send net (client.submission orderId payload correlationId)).1.map fun _ => (),
        (client.send net (client.submission orderId payload correlationId)).2) := by
  unfold submitEnrichment
  have hreq : client.request net "POST" ("/api/v1/orders/" ++ orderId ++ "/enrichment")
      [("X-Correlation-ID", correlationId)] [] (some payload) =
        client.send net (client.submission orderId payload correlationId) := rfl
  rw [hreq]
  rcases client.send net (client.submission orderId payload correlationId) with ⟨e | r, log⟩ <;> rfl

theorem sentFor_exchanges (hvalid : client.retry.Valid) (hjitter : net.JittersWithin client.retry)
    {s : Submission} (haccepted : s.accepted =
      (client.submitEnrichment net s.orderId s.payload s.correlationId).1.isOk) :
    SentFor client s (submissionExchanges client net s) := by
  obtain ⟨hattempted, last, hlast, hverdict⟩ := attempted_send hvalid hjitter
    (client.submission s.orderId s.payload s.correlationId)
  unfold submissionExchanges
  rw [submitEnrichment_eq] at haccepted ⊢
  refine ⟨hattempted, ?_⟩
  have hacknowledged : last.acknowledged = (net.verdict last.outcome).isOk := by
    unfold Exchange.acknowledged
    rcases last.outcome with r | e
    · simp only
      rw [Network.verdict_response]
      cases r.isSuccess <;> rfl
    · rw [Network.verdict_raised]
      rfl
  have hsame : s.accepted = last.acknowledged := by
    rw [haccepted, hacknowledged, ← hverdict]
    cases (client.send net (client.submission s.orderId s.payload s.correlationId)).1 <;> rfl
  rw [hsame]
  constructor
  · exact fun h => ⟨last, hlast, h⟩
  · rintro ⟨last', hlast', h⟩
    rwa [Option.some.inj (hlast.symm.trans hlast')]

theorem isPost_submissionExchanges {s : Submission} {e : Exchange}
    (he : e ∈ submissionExchanges client net s) : e.isPost = true := by
  unfold submissionExchanges at he
  rw [submitEnrichment_eq] at he
  unfold Exchange.isPost
  rw [request_of_mem_send he]
  rfl

/-- A request without headers of its own carries no correlation id. -/
theorem carries_of_no_headers (id : String) :
    (client.headers []).lookup "X-Correlation-ID" ≠ some id := by
  unfold headers
  split
  · exact fun h => by cases h
  · exact fun h => by cases h

/-- The poll changes nothing at the external API. -/
theorem poll_exchanges {rt : Runtime} {read : String → Except PyErr (List OrderDocument)}
    {updatedSince : Option DateTime} {limit : Nat} {e : Exchange}
    (he : e ∈ (client.pollOrders net rt read updatedSince limit).2) :
    e.isPost = false ∧ ∀ id, e.carries id = false := by
  have he' : e ∈ (client.request net "GET" "/api/v1/orders" [] (pollParams updatedSince limit)
      none).2 := by
    unfold pollOrders at he
    rcases hget : client.request net "GET" "/api/v1/orders" [] (pollParams updatedSince limit) none
      with ⟨answer, log⟩
    rw [hget] at he
    exact he
  have hreq := request_of_mem_send he'
  unfold Exchange.isPost Exchange.carries
  rw [hreq]
  exact ⟨rfl, fun id => decide_eq_false (carries_of_no_headers id)⟩

end ManhattanSimulatorHttpClient

theorem SentFor.carries {client : ManhattanSimulatorHttpClient} {s : Submission}
    {log : List Exchange} (h : SentFor client s log) (id : String) {e : Exchange} (he : e ∈ log) :
    e.carries id = true ↔ id = s.correlationId := by
  have hlookup : (client.submission s.orderId s.payload s.correlationId).headers.lookup
      "X-Correlation-ID" = some s.correlationId := rfl
  unfold Exchange.carries
  rw [h.same e he, hlookup, decide_eq_true_eq, Option.some.injEq]
  exact eq_comm

/-- Among groups of requests, each for one submission, those that carry an
    id are one group, if the submissions have different ids. -/
theorem filter_carries_flatten {client : ManhattanSimulatorHttpClient} {ss : List Submission}
    {groups : List (List Exchange)} (h : List.Forall₂ (SentFor client) ss groups)
    (hnodup : (ss.map (·.correlationId)).Nodup) {s : Submission} (hs : s ∈ ss) :
    SentFor client s (groups.flatten.filter (·.carries s.correlationId)) := by
  have hother : ∀ {x g}, SentFor client x g → x.correlationId ≠ s.correlationId →
      g.filter (·.carries s.correlationId) = [] := by
    intro x g hg hne
    rw [List.filter_eq_nil_iff]
    exact fun e he hcarries => hne ((hg.carries _ he).mp hcarries).symm
  have hothers : ∀ {xs gs}, List.Forall₂ (SentFor client) xs gs →
      s.correlationId ∉ xs.map (·.correlationId) →
      gs.flatten.filter (·.carries s.correlationId) = [] := by
    intro xs gs hall hnotin
    induction hall with
    | nil => rfl
    | cons hg _ ih =>
      rw [List.map_cons, List.mem_cons, not_or] at hnotin
      rw [List.flatten_cons, List.filter_append, hother hg (Ne.symm hnotin.1), ih hnotin.2]
      rfl
  induction h with
  | nil => cases hs
  | @cons x g xs gs hg hrest ih =>
    rw [List.map_cons, List.nodup_cons] at hnodup
    rw [List.flatten_cons, List.filter_append]
    rcases List.mem_cons.mp hs with rfl | hs
    · -- its own group, and nothing of the others
      have hself : g.filter (·.carries s.correlationId) = g :=
        List.filter_eq_self.mpr fun e he => (hg.carries _ he).mpr rfl
      rw [hself, hothers hrest hnodup.1, List.append_nil]
      exact hg
    · have hne : x.correlationId ≠ s.correlationId :=
        fun h => hnodup.1 (h ▸ List.mem_map_of_mem hs)
      rw [hother hg hne, List.nil_append]
      exact ih hnodup.2 hs

/-! ## Over all runs -/

/-- The POST requests are those of the submissions, in their order; no other
    request carries a correlation id. -/
structure OnWire (client : ManhattanSimulatorHttpClient) (s : WiredDaemon) : Prop where
  posts : ∃ groups, List.Forall₂ (SentFor client) s.process.world.submissions groups ∧
    s.wire.filter (·.isPost) = groups.flatten
  others : ∀ e ∈ s.wire, e.isPost = false → ∀ id, e.carries id = false

namespace OnWire

variable {client : ManhattanSimulatorHttpClient} {b : Bootstrap} {s : WiredDaemon}

/-- Requests that change nothing, then the requests of new submissions. -/
theorem extend {s' : WiredDaemon} (h : OnWire client s) (net : Network) (gets : List Exchange)
    (ss : List Submission)
    (hsubs : s'.process.world.submissions = s.process.world.submissions ++ ss)
    (hwire : s'.wire = s.wire ++ (gets ++ ss.flatMap (submissionExchanges client net)))
    (hgets : ∀ e ∈ gets, e.isPost = false ∧ ∀ id, e.carries id = false)
    (hsent : ∀ x ∈ ss, SentFor client x (submissionExchanges client net x)) : OnWire client s' := by
  obtain ⟨⟨groups, hgroups, hposts⟩, hothers⟩ := h
  have hpost : ∀ e ∈ ss.flatMap (submissionExchanges client net), e.isPost = true := by
    intro e he
    obtain ⟨x, _, hx⟩ := List.mem_flatMap.mp he
    exact ManhattanSimulatorHttpClient.isPost_submissionExchanges hx
  constructor
  · refine ⟨groups ++ ss.map (submissionExchanges client net), ?_, ?_⟩
    · rw [hsubs]
      refine List.rel_append hgroups ?_
      rw [List.forall₂_map_right_iff, List.forall₂_same]
      exact hsent
    · have hnone : gets.filter (·.isPost) = [] := by
        rw [List.filter_eq_nil_iff]
        exact fun e he hpost => absurd ((hgets e he).1.symm.trans hpost) Bool.false_ne_true
      rw [hwire, List.filter_append, List.filter_append, hposts, hnone, List.nil_append,
        List.filter_eq_self.mpr hpost, List.flatten_append, List.flatMap_def]
  · intro e he hno
    rw [hwire] at he
    rcases List.mem_append.mp he with he | he
    · exact hothers e he hno
    rcases List.mem_append.mp he with he | he
    · exact (hgets e he).2
    · rw [hpost e he] at hno
      cases hno

theorem preserve_step (h : OnWire client s) (hvalid : client.retry.Valid)
    {i : WiredDaemon.Input} (hi : WiredDaemon.Promised client b s i) :
    OnWire client (s.step client b i) := by
  have hsame : OnWire client s → ∀ {p wire}, p.world = s.process.world → wire = s.wire →
      OnWire client ⟨p, wire⟩ := by
    intro h p wire hp hwire
    rw [hwire]
    refine ⟨?_, h.others⟩
    show ∃ groups, List.Forall₂ (SentFor client) p.world.submissions groups ∧ _
    rw [hp]
    exact h.posts
  match i with
  | .restart => exact hsame h rfl (List.append_nil _)
  | .round r =>
    have hjitter : r.network.JittersWithin client.retry := hi.2
    rcases hp : s.process with d | ⟨e, w⟩
    · have henv : ∀ i, ((r.round client b.facade.process.runtime).cycle.env i).submit =
          r.submit client := fun _ => rfl
      obtain ⟨ss, hsubs, haccepted⟩ := round_submissions b d henv
      have hstep : (s.step client b (.round r)).process =
          DaemonProcess.round b (r.round client b.facade.process.runtime) (.running d) := by
        show DaemonProcess.round b _ s.process = _
        rw [hp]
      refine h.extend r.network (client.pollOrders r.network b.facade.process.runtime r.read
        d.updatedSince b.facade.pollBatchSize).2 ss ?_ ?_ ?_ ?_
      · rw [hstep, hp]
        exact hsubs
      · have hnew : ((DaemonProcess.round b (r.round client b.facade.process.runtime)
            (.running d)).world.submissions.drop d.world.submissions.length) = ss := by
          rw [hsubs, List.drop_left]
        show s.wire ++ r.exchanges client b s.process = _
        rw [hp]
        unfold WiredRound.exchanges
        simp only [hnew]
      · exact fun e he => ManhattanSimulatorHttpClient.poll_exchanges he
      · exact fun x hx =>
          ManhattanSimulatorHttpClient.sentFor_exchanges hvalid hjitter (haccepted x hx)
    · refine hsame h ?_ ?_
      · rw [hp]
        rfl
      · show s.wire ++ r.exchanges client b s.process = s.wire
        rw [hp]
        exact List.append_nil _

end OnWire

/-- Each call makes at most one submission, under its own id. -/
theorem nodup_submissions {uc : ProcessOrderUseCase} {w : World}
    (hw : (Processing.machine uc).Reachable w) :
    (w.submissions.map (·.correlationId)).Nodup := by
  refine (Machine.reachable_induction _
    (I := fun w => IdsIssued w ∧ (w.submissions.map (·.correlationId)).Nodup) ?_ ?_ hw).2
  · intro w hinit
    obtain ⟨rules, rfl⟩ := hinit
    exact ⟨IdsIssued.fresh rules, List.nodup_nil⟩
  · intro w i h hfresh
    obtain ⟨hids, hnodup⟩ := h
    refine ⟨hids.preserve_step uc hfresh, ?_⟩
    match i with
    | .publish c =>
      have hsame : (publishOutbox c w).2.submissions = w.submissions := by
        rcases publishOutbox_cases c w with ⟨_, _, hres⟩ | ⟨_, _, _, hres⟩ <;> rw [hres] <;> rfl
      show ((publishOutbox c w).2.submissions.map (·.correlationId)).Nodup
      rwa [hsame]
    | .process c =>
      obtain ⟨ss, hsubs, hone, hss⟩ := c.execute_submissions uc w
      show ((c.execute uc w).2.submissions.map (·.correlationId)).Nodup
      rw [hsubs, List.map_append, List.nodup_append]
      refine ⟨hnodup, ?_, ?_⟩
      · have hids : (ss.map (·.correlationId)).length ≤ 1 := by rwa [List.length_map]
        exact List.nodup_iff_count_le_one.mpr fun id =>
          Nat.le_trans List.count_le_length hids
      · -- the id of the call is not among those that were submitted
        intro id hid id' hid' heq
        obtain ⟨x, hx, rfl⟩ := List.mem_map.mp hid
        obtain ⟨y, hy, rfl⟩ := List.mem_map.mp hid'
        refine hfresh.2 ?_
        rw [← (hss y hy).correlationId, ← heq]
        exact hids.submissions x hx

namespace Sample

def wms : ManhattanSimulatorHttpClient := externalWms "http://localhost:8000" ""

/-- The first attempt of each POST request times out. -/
def slowNetwork : Network where
  answer req attempt :=
    if req.method = "POST" ∧ attempt = 1 then .raised (.timeout "timed out")
    else .response ⟨200, req.toRequest, ""⟩
  jitter _ := 0
  statusMessage _ := ""

/-- A round in which the API has one order and accepts its enrichment. -/
def wiredRound : WiredRound where
  started := nine
  runId := "run"
  network := slowNetwork
  read _ := .ok [document]
  env _ := { now := eleven, correlationId := correlationId, submit := accept }
  publish := quiet

/-- The daemon after that round. -/
def wired : WiredDaemon :=
  (WiredDaemon.machine wms bootstrap).run ⟨.start (World.fresh rules), []⟩ [.round wiredRound]

theorem valid_wms : wms.retry.Valid :=
  ⟨by decide, by norm_num [wms, externalWms], by norm_num [wms, externalWms]⟩

theorem reachable_wired : (WiredDaemon.machine wms bootstrap).Reachable wired := by
  refine ⟨_, _, ⟨rules, rfl⟩, ?_, rfl⟩
  rw [Machine.legal_cons]
  refine ⟨⟨?_, fun _ => ⟨le_refl _, by norm_num [wms, externalWms, wiredRound, slowNetwork]⟩⟩,
    fun _ hp => absurd hp List.not_mem_nil⟩
  intro orders hpoll
  have hone : orders.length = 1 := by
    rw [← Except.ok.inj hpoll]
    rfl
  rw [hone]
  exact ⟨List.nodup_singleton _, by decide, fun _ _ => List.not_mem_nil⟩

end Sample

namespace WiredDaemon

variable {client : ManhattanSimulatorHttpClient} {b : Bootstrap} {s : WiredDaemon}

theorem reachable_onWire (hvalid : client.retry.Valid) (hs : (machine client b).Reachable s) :
    OnWire client s := by
  refine Machine.reachable_induction _ (I := OnWire client) ?_ ?_ hs
  · intro s hinit
    obtain ⟨rules, rfl⟩ := hinit
    exact ⟨⟨[], .nil, rfl⟩, fun _ he => absurd he List.not_mem_nil⟩
  · exact fun s i h hi => h.preserve_step hvalid hi

theorem reachable_process (hs : (machine client b).Reachable s) :
    (DaemonProcess.machine b).Reachable s.process := by
  obtain ⟨p, hp, rfl⟩ := (simulates_process client b).reachable hs
  exact hp

/-- The requests that carry the id of a submission are its own. -/
theorem sentFor_carrying (hvalid : client.retry.Valid) (hs : (machine client b).Reachable s)
    {x : Submission} (hx : x ∈ s.process.world.submissions) :
    SentFor client x (s.wire.filter (·.carries x.correlationId)) := by
  obtain ⟨⟨groups, hgroups, hposts⟩, hothers⟩ := reachable_onWire hvalid hs
  have hnodup : (s.process.world.submissions.map (·.correlationId)).Nodup := by
    obtain ⟨t, ht, hst⟩ := (DaemonProcess.daemon_simulates b).reachable (reachable_process hs)
    rw [hst.submissions]
    exact nodup_submissions ht
  -- what carries an id is a POST request
  have hcarried : s.wire.filter (·.carries x.correlationId) =
      groups.flatten.filter (·.carries x.correlationId) := by
    rw [← hposts, List.filter_filter]
    refine List.filter_congr fun e he => ?_
    cases hpost : e.isPost with
    | true => rw [Bool.and_true]
    | false => rw [hothers e he hpost, Bool.false_and]
  rw [hcarried]
  exact filter_carries_flatten hgroups hnodup hx

/-- **Submissions on the wire.** In every state of the daemon, over all its
    lifetimes, each of which ends between rounds or by an exception, and
    whatever the network does, the POST requests are those of the
    submissions: one group after another, in their order. The requests that
    carry the id of a submission are at most `max_attempts` times the same
    request, all but the last of which failed, and the submission counts as
    accepted if and only if the last was acknowledged. -/
theorem wire_per_submission (hvalid : client.retry.Valid) (hs : (machine client b).Reachable s) :
    (∃ groups, List.Forall₂ (SentFor client) s.process.world.submissions groups ∧
      s.wire.filter (·.isPost) = groups.flatten) ∧
    ∀ x ∈ s.process.world.submissions,
      SentFor client x (s.wire.filter (·.carries x.correlationId)) :=
  ⟨(reachable_onWire hvalid hs).posts, fun _ hx => sentFor_carrying hvalid hs hx⟩

/-- The submission is accepted by its second request. -/
theorem wire_per_submission_sample : ∃ x ∈ Sample.wired.process.world.submissions,
    x.accepted = true ∧ (Sample.wired.wire.filter (·.isPost)).length = 2 ∧
      SentFor Sample.wms x (Sample.wired.wire.filter (·.carries x.correlationId)) := by
  have hone : Sample.wired.process.world.submissions.map (·.accepted) = [true] := by
    decide +kernel
  obtain ⟨x, hx, hacc⟩ : ∃ x ∈ Sample.wired.process.world.submissions, x.accepted = true := by
    rw [← List.mem_map, hone]
    exact List.mem_singleton.mpr rfl
  exact ⟨x, hx, hacc, by decide +kernel,
    (wire_per_submission Sample.valid_wms Sample.reachable_wired).2 x hx⟩

/-- **Success events and the wire.** A success event that does not say that
    no rule matched stands for a request that went out for its order under
    its correlation id, and that the external API acknowledged. -/
theorem success_acknowledged (hvalid : client.retry.Valid) (hs : (machine client b).Reachable s)
    {m : OutboxMessage} (hm : m ∈ s.process.world.db.outbox.rows)
    (htype : m.eventType = .OrderEnrichmentSucceeded) (hevent : ¬ IsNoMatchEvent m) :
    ∃ id, m.messageId = messageIdOf id m.aggregateId ∧ ∃ e ∈ s.wire, e.acknowledged = true ∧
      e.carries id = true ∧ e.request.method = "POST" ∧
      e.request.url = ManhattanSimulatorHttpClient.submitUrl client.baseUrl m.aggregateId := by
  have hsuccess : SuccessAccepted s.process.world := by
    refine (DaemonProcess.daemon_simulates b).invariant
      (Q := fun p => SuccessAccepted p.world)
      (fun t ht => (DaemonProcess.records_of_reachable ht).2.2) ?_ (reachable_process hs)
    intro p t hst h
    unfold SuccessAccepted AcceptedFor at h ⊢
    rw [hst.db, hst.submissions]
    exact h
  obtain ⟨id, hid, x, hx, hacc, rfl, horder⟩ := hsuccess m hm htype hevent
  -- the last request of the submission that was accepted
  have hsent := sentFor_carrying hvalid hs hx
  obtain ⟨last, hlast, hack⟩ := hsent.accepted.mp hacc
  have hin := List.mem_of_getLast? hlast
  obtain ⟨hwire, hcarries⟩ := List.mem_filter.mp hin
  refine ⟨x.correlationId, hid, last, hwire, hack, hcarries, ?_⟩
  rw [hsent.same last hin, ← horder]
  exact ⟨rfl, rfl⟩

theorem success_acknowledged_sample : ∃ m ∈ Sample.wired.process.world.db.outbox.rows,
    ∃ e ∈ Sample.wired.wire, e.acknowledged = true ∧
      e.request.url = ManhattanSimulatorHttpClient.submitUrl Sample.wms.baseUrl m.aggregateId := by
  have hrow : Sample.wired.process.world.db.outbox.rows.head?.map (fun m => (m.eventType,
      (memberOf "event" m.payloadJson).map PyVal.dumps)) =
        some (.OrderEnrichmentSucceeded, some (.ok "\"OrderEnrichmentSucceeded\"")) := by
    decide +kernel
  obtain ⟨m, hm, hfacts⟩ := Option.map_eq_some_iff.mp hrow
  obtain ⟨htype, hpayload⟩ := Prod.mk.inj hfacts
  have hno : ¬ IsNoMatchEvent m := by
    intro h
    unfold IsNoMatchEvent at h
    rw [h] at hpayload
    revert hpayload
    decide
  have hin := List.mem_of_mem_head? hm
  obtain ⟨_, _, e, he, hack, _, _, hurl⟩ :=
    success_acknowledged Sample.valid_wms Sample.reachable_wired hin htype hno
  exact ⟨m, hin, e, he, hack, hurl⟩

end WiredDaemon

end RulesEnrichment
