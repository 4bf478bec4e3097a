import RulesEnrichment.Model.HttpClient

/-! # What comes of a request

    `_request` sends a request until an attempt settles it or the attempts
    are used up, and judges it by that attempt alone (`send_eq`). Which of
    its attempts decides is a matter of the outcomes (`Decides`).

    * `request_spec`: when a request is answered, when it times out, and
      what was sent by then.
    * `healthCheck_iff`: what the health checks report. -/

namespace RulesEnrichment

/-! ## The attempt that decides -/

/-- The `k`-th of at most `n` attempts decides: those before it are retried,
    and it is not, or it is the last one. -/
structure DecidingAttempt (n : Nat) (fn : Nat → Outcome) (k : Nat) : Prop where
  pos : 1 ≤ k
  le : k ≤ n
  before : ∀ i, 1 ≤ i → i < k → (fn i).retried = true
  ends : (fn k).retried = false ∨ k = n

/-- Only one attempt decides. -/
theorem DecidingAttempt.unique {n k k' : Nat} {fn : Nat → Outcome} (h : DecidingAttempt n fn k)
    (h' : DecidingAttempt n fn k') : k = k' := by
  -- of two of them the earlier one would have been retried
  have hle : ∀ {i j}, DecidingAttempt n fn i → DecidingAttempt n fn j → j ≤ i := by
    intro i j hi hj
    by_contra hlt
    have hretried := hj.before i hi.pos (by omega)
    rcases hi.ends with hsettled | hlast
    · rw [hsettled] at hretried
      exact Bool.noConfusion hretried
    · have hj' := hj.le
      omega
  have h₁ := hle h h'
  have h₂ := hle h' h
  omega

/-- The policy makes an attempt, and no delay of it is negative. -/
structure RetryPolicy.Valid (p : RetryPolicy) : Prop where
  attempts : 1 ≤ p.maxAttempts
  base : 0 ≤ p.baseDelaySeconds
  cap : 0 ≤ p.maxDelaySeconds

/-- `random.uniform(0, base_delay_seconds)` stays within its bounds. -/
def Network.JittersWithin (net : Network) (p : RetryPolicy) : Prop :=
  ∀ a, 0 ≤ net.jitter a ∧ net.jitter a ≤ p.baseDelaySeconds

theorem Outcome.result_of_retried {o : Outcome} (h : o.retried = true) :
    o.check = .error o.error := (Outcome.check_of_retried h).1

/-- `run` comes to what the deciding attempt comes to. -/
theorem RetryPolicy.run_eq {p : RetryPolicy} (hvalid : p.Valid) (fn : Nat → Outcome)
    {jitter : Nat → ℚ} (hjitter : ∀ a, 0 ≤ jitter a ∧ jitter a ≤ p.baseDelaySeconds) :
    ∃ k, DecidingAttempt p.maxAttempts fn k ∧ (p.run fn jitter).1 = (fn k).check ∧
      (p.run fn jitter).2.count .call = k := by
  obtain ⟨j, hj, hretried, htrace, _, hend⟩ := run_cases fn hvalid.attempts
    (fun a => delay_nonneg hvalid.base hvalid.cap (hjitter a))
  refine ⟨j + 1, ⟨Nat.succ_pos j, hj, hretried, ?_⟩, ?_, ?_⟩
  · rcases hend with ⟨hdone, _⟩ | ⟨_, hlast, _⟩
    · exact Or.inl hdone
    · exact Or.inr hlast
  · rcases hend with ⟨hdone, hres⟩ | ⟨hdone, _, hres⟩
    · rw [hres, Outcome.check_of_not_retried hdone]
    · rw [hres, Outcome.result_of_retried hdone]
  · rw [htrace, trace_eq, count_call, List.length_map, List.length_range]

namespace Network

/-- What `_request` makes of an outcome. -/
def verdict (net : Network) (o : Outcome) : Except PyErr Response :=
  match o.check >>= net.raiseForStatus with
  | .ok r => .ok r
  | .error e => .error e.toDaemonError

variable {net : Network} {o : Outcome}

theorem verdict_response (net : Network) (r : Response) : net.verdict (.response r) =
    if r.isSuccess then .ok r
    else .error ⟨.ExternalApiUnavailableError,
      if 500 ≤ r.statusCode then "server error" else net.statusMessage r⟩ := by
  unfold verdict
  by_cases hserver : 500 ≤ r.statusCode
  · have hno : r.isSuccess = false := by
      unfold Response.isSuccess
      exact decide_eq_false (by omega)
    have hcheck : (Outcome.response r).check = .error (.status "server error" r.request r) :=
      if_pos hserver
    rw [hcheck, hno, if_pos hserver]
    rfl
  · have hcheck : (Outcome.response r).check = .ok r := if_neg hserver
    have hbind : (Except.ok r >>= net.raiseForStatus) = net.raiseForStatus r := rfl
    rw [hcheck, hbind, if_neg hserver]
    unfold raiseForStatus
    cases r.isSuccess <;> rfl

theorem verdict_raised (net : Network) (e : HttpError) :
    net.verdict (.raised e) = .error e.toDaemonError := rfl

/-- The message, if the outcome says that the API is unavailable: it is a
    response that is no success, or an error of `httpx` that is no timeout. -/
def unavailable (net : Network) : Outcome → Option String
  | .response r =>
    if r.isSuccess then none
    else some (if 500 ≤ r.statusCode then "server error" else net.statusMessage r)
  | .raised (.timeout _) => none
  | .raised (.transport msg) => some msg
  | .raised (.status msg _ _) => some msg
  | .raised (.other e) => if e.cls ∈ requestErrors then some e.msg else none

/-- A request returns the response of its deciding attempt, if that is a
    success. -/
theorem verdict_ok_iff {r : Response} :
    net.verdict o = .ok r ↔ o = .response r ∧ r.isSuccess = true := by
  match o with
  | .raised e =>
    rw [verdict_raised]
    constructor
    · intro h
      cases h
    · intro h
      cases h.1
  | .response r' =>
    rw [verdict_response]
    cases hs : r'.isSuccess with
    | true =>
      rw [if_pos rfl]
      constructor
      · intro h
        cases h
        exact ⟨rfl, hs⟩
      · intro h
        cases h.1
        rfl
    | false =>
      rw [if_neg Bool.false_ne_true]
      constructor
      · intro h
        cases h
      · intro h
        cases h.1
        exact absurd (hs.symm.trans h.2) Bool.false_ne_true

/-- What a request raises, by the outcome of its deciding attempt. -/
theorem verdict_error_iff {e : PyErr} : net.verdict o = .error e ↔
    (∃ msg, o = .raised (.timeout msg) ∧ e = ⟨.ExternalApiTimeoutError, msg⟩) ∨
    (∃ msg, net.unavailable o = some msg ∧ e = ⟨.ExternalApiUnavailableError, msg⟩) ∨
    (o = .raised (.other e) ∧ e.cls ∉ requestErrors) := by
  match o with
  | .response r =>
    rw [verdict_response]
    unfold unavailable
    cases hs : r.isSuccess with
    | true => simp [hs]
    | false =>
      simp only [hs, Bool.false_eq_true, if_false, reduceCtorEq, false_and, exists_false,
        Option.some.injEq, exists_eq_left', Except.error.injEq, or_false, false_or]
      exact eq_comm
  | .raised (.timeout msg) =>
    rw [verdict_raised]
    constructor
    · exact fun h => Or.inl ⟨msg, rfl, (Except.error.inj h).symm⟩
    · rintro (⟨_, h, rfl⟩ | ⟨_, h, _⟩ | ⟨h, _⟩) <;> cases h
      rfl
  | .raised (.transport msg) =>
    rw [verdict_raised]
    constructor
    · exact fun h => Or.inr (Or.inl ⟨msg, rfl, (Except.error.inj h).symm⟩)
    · rintro (⟨_, h, _⟩ | ⟨_, h, rfl⟩ | ⟨h, _⟩) <;> cases h
      rfl
  | .raised (.status msg _ _) =>
    rw [verdict_raised]
    constructor
    · exact fun h => Or.inr (Or.inl ⟨msg, rfl, (Except.error.inj h).symm⟩)
    · rintro (⟨_, h, _⟩ | ⟨_, h, rfl⟩ | ⟨h, _⟩) <;> cases h
      rfl
  | .raised (.other e') =>
    rw [verdict_raised]
    unfold HttpError.toDaemonError unavailable
    by_cases hcls : e'.cls ∈ requestErrors
    · simp only [if_pos hcls]
      constructor
      · exact fun h => Or.inr (Or.inl ⟨e'.msg, rfl, (Except.error.inj h).symm⟩)
      · rintro (⟨_, h, _⟩ | ⟨_, h, rfl⟩ | ⟨h, hno⟩) <;> cases h
        · rfl
        · exact absurd hcls hno
    · simp only [if_neg hcls]
      constructor
      · intro h
        cases h
        exact Or.inr (Or.inr ⟨rfl, hcls⟩)
      · rintro (⟨_, h, _⟩ | ⟨_, h, _⟩ | ⟨h, _⟩) <;> cases h
        rfl

end Network

/-! ## `_request` -/

namespace ManhattanSimulatorHttpClient

variable {client : ManhattanSimulatorHttpClient} {net : Network}

/-- **A request.** It is sent until an attempt decides, the same each time,
    and comes to the verdict on that attempt. -/
theorem send_eq (hvalid : client.retry.Valid) (hjitter : net.JittersWithin client.retry)
    (req : OutgoingRequest) :
    ∃ k, DecidingAttempt client.retry.maxAttempts (net.answer req) k ∧
      client.send net req = (net.verdict (net.answer req k),
        (List.range' 1 k).map fun attempt => ⟨req, net.answer req attempt⟩) := by
  obtain ⟨k, hk, hresult, hcalls⟩ := RetryPolicy.run_eq hvalid (net.answer req) hjitter
  refine ⟨k, hk, ?_⟩
  unfold send Network.verdict
  rcases hrun : client.retry.run (net.answer req) net.jitter with ⟨result, events⟩
  rw [hrun] at hresult hcalls
  have hsent : exchanges net req events =
      (List.range' 1 k).map fun attempt => ⟨req, net.answer req attempt⟩ := by
    unfold exchanges
    rw [show events.count .call = k from hcalls]
  simp only at hresult
  simp only [hsent, hresult]
  cases (net.answer req k).check >>= net.raiseForStatus <;> rfl

/-- What goes out is the request. -/
theorem request_of_mem_send {req : OutgoingRequest} {e : Exchange}
    (he : e ∈ (client.send net req).2) : e.request = req := by
  have hlog : (client.send net req).2 =
      exchanges net req (client.retry.run (net.answer req) net.jitter).2 := by
    unfold send
    rcases client.retry.run (net.answer req) net.jitter with ⟨result, events⟩
    simp only
    cases result >>= net.raiseForStatus <;> rfl
  rw [hlog] at he
  obtain ⟨attempt, _, rfl⟩ := List.mem_map.mp he
  rfl

/-- The exchanges of one request: at most `n` of the same, all but the last
    of which failed in a way that is retried; it is given up after the
    `n`-th. -/
structure Attempted (n : Nat) (req : OutgoingRequest) (log : List Exchange) : Prop where
  sent : log ≠ []
  atMost : log.length ≤ n
  same : ∀ e ∈ log, e.request = req
  retried : ∀ e ∈ log.dropLast, e.outcome.retried = true
  ends : ∀ e, log.getLast? = some e → e.outcome.retried = false ∨ log.length = n

theorem attempted_send (hvalid : client.retry.Valid) (hjitter : net.JittersWithin client.retry)
    (req : OutgoingRequest) :
    Attempted client.retry.maxAttempts req (client.send net req).2 ∧
      ∃ last, (client.send net req).2.getLast? = some last ∧
        (client.send net req).1 = net.verdict last.outcome := by
  obtain ⟨k, hk, hsend⟩ := send_eq hvalid hjitter req
  obtain ⟨hpos, hle, hbefore, hends⟩ := hk
  -- the exchange of the deciding attempt is the last one
  obtain ⟨j, rfl⟩ : ∃ j, k = j + 1 := ⟨k - 1, by omega⟩
  have hlog : (client.send net req).2 =
      ((List.range' 1 j).map fun attempt => ⟨req, net.answer req attempt⟩) ++
        [⟨req, net.answer req (j + 1)⟩] := by
    rw [hsend, List.range'_1_concat, List.map_append, Nat.add_comm 1 j]
    rfl
  constructor
  · constructor
    · rw [hlog]
      exact List.append_ne_nil_of_right_ne_nil _ (List.cons_ne_nil _ _)
    · rw [hsend, List.length_map, List.length_range']
      exact hle
    · intro e he
      rw [hsend] at he
      obtain ⟨attempt, _, rfl⟩ := List.mem_map.mp he
      rfl
    · intro e he
      rw [hlog, List.dropLast_concat] at he
      obtain ⟨attempt, hattempt, rfl⟩ := List.mem_map.mp he
      rw [List.mem_range'_1] at hattempt
      exact hbefore attempt hattempt.1 (by omega)
    · intro e he
      rw [hlog, List.getLast?_concat] at he
      rw [← Option.some.inj he, hlog, List.length_append, List.length_map, List.length_range',
        List.length_singleton]
      exact hends
  · refine ⟨⟨req, net.answer req (j + 1)⟩, ?_, ?_⟩
    · rw [hlog, List.getLast?_concat]
    · rw [hsend]

/-- **Requests.** Whatever the network does, a request goes out once to
    `max_attempts` times, always the same, and every attempt but the last
    failed in a way that is retried. The last one decides: `_request`
    returns its response if and only if that is a success. It raises a
    timeout if and only if the last attempt timed out; that the API is
    unavailable if and only if the last attempt came to another error of
    `httpx` or to a response that is no success; and anything else if and
    only if the last attempt raised it, and `httpx` does not know it. The
    delays are rational numbers here, which do not overflow. -/
theorem request_spec (hvalid : client.retry.Valid) (hjitter : net.JittersWithin client.retry)
    (method path : String) (own : List (String × String)) (params : List (String × Python.PyVal))
    (json : Option Python.PyVal) :
    let result := (client.request net method path own params json).1
    let log := (client.request net method path own params json).2
    Attempted client.retry.maxAttempts
      ⟨⟨method, requestUrl client.baseUrl path⟩, client.headers own, params, json⟩ log ∧
    ∃ last, log.getLast? = some last ∧
      (∀ r, result = .ok r ↔ last.outcome = .response r ∧ r.isSuccess = true) ∧
      ∀ e, result = .error e ↔
        (∃ msg, last.outcome = .raised (.timeout msg) ∧ e = ⟨.ExternalApiTimeoutError, msg⟩) ∨
        (∃ msg, net.unavailable last.outcome = some msg ∧
          e = ⟨.ExternalApiUnavailableError, msg⟩) ∨
        (last.outcome = .raised (.other e) ∧ e.cls ∉ requestErrors) := by
  intro result log
  let req : OutgoingRequest :=
    ⟨⟨method, requestUrl client.baseUrl path⟩, client.headers own, params, json⟩
  obtain ⟨hattempted, last, hlast, hverdict⟩ := attempted_send hvalid hjitter req
  refine ⟨hattempted, last, hlast, ?_, ?_⟩
  · intro r
    rw [← Network.verdict_ok_iff, ← hverdict]
    rfl
  · intro e
    rw [← Network.verdict_error_iff, ← hverdict]
    rfl

/-- Against a server that is restarting, the third attempt decides. -/
theorem request_spec_restarting :
    let client := externalWms "http://localhost:8000/" ""
    let net : Network := ⟨fun _ => RetryPolicy.restarting, fun _ => 1 / 10, fun _ => ""⟩
    (client.request net "GET" "/health" [] [] none).1 = .ok ⟨200, ⟨"GET", "/health"⟩, "ok"⟩ ∧
      (client.request net "GET" "/health" [] [] none).2.length ≤ 3 := by
  intro client net
  have hvalid : client.retry.Valid :=
    ⟨by decide, by norm_num [client, externalWms], by norm_num [client, externalWms]⟩
  have hjitter : net.JittersWithin client.retry :=
    fun _ => ⟨by norm_num [net], by norm_num [net, client, externalWms]⟩
  obtain ⟨hattempted, last, hlast, hok, _⟩ :=
    request_spec hvalid hjitter "GET" "/health" [] [] none
  refine ⟨(hok _).mpr ⟨?_, by decide⟩, hattempted.atMost⟩
  have hthird : DecidingAttempt 3 RetryPolicy.restarting 3 := by
    refine ⟨by decide, by decide, ?_, Or.inl rfl⟩
    intro i hi hlt
    obtain rfl | rfl : i = 1 ∨ i = 2 := by omega
    · rfl
    · rfl
  obtain ⟨k, hk, hsend⟩ := send_eq hvalid hjitter
    ⟨⟨"GET", requestUrl client.baseUrl "/health"⟩, client.headers [], [], none⟩
  rw [hk.unique hthird] at hsend
  have hlog : (client.request net "GET" "/health" [] [] none).2 = _ := congrArg Prod.snd hsend
  rw [hlog] at hlast
  rw [← Option.some.inj hlast]
  rfl

/-- The health check of the external API: an answer with the status 200, in
    the attempt that decides. The endpoint reports nothing else. -/
theorem healthCheck_iff (hvalid : client.retry.Valid) (hjitter : net.JittersWithin client.retry) :
    ((client.healthCheck net).1 = true ↔ ∃ last r, (client.healthCheck net).2.getLast? = some last ∧
      last.outcome = .response r ∧ r.statusCode = 200) ∧
    (client.health net).1 = [("db_ok", true), ("external_api_ok", (client.healthCheck net).1),
      ("rules_repo_ok", true), ("outbox_ok", true)] := by
  obtain ⟨_, last, hlast, hverdict⟩ := attempted_send hvalid hjitter
    ⟨⟨"GET", requestUrl client.baseUrl "/health"⟩, client.headers [], [], none⟩
  have hok : ∀ r, (client.request net "GET" "/health" [] [] none).1 = .ok r ↔
      last.outcome = .response r ∧ r.isSuccess = true := fun r =>
    (congrArg (· = Except.ok r) hverdict).to_iff.trans Network.verdict_ok_iff
  change (client.request net "GET" "/health" [] [] none).2.getLast? = some last at hlast
  refine ⟨?_, rfl⟩
  unfold healthCheck
  rcases hreq : client.request net "GET" "/health" [] [] none with ⟨e | r, log⟩
  · rw [hreq] at hlast hok
    simp only [Bool.false_eq_true, false_iff]
    rintro ⟨last', r, hlast', hr, hstatus⟩
    have heq : last = last' := Option.some.inj (hlast.symm.trans hlast')
    have hsuccess : r.isSuccess = true := decide_eq_true (by omega)
    exact absurd ((hok r).mpr ⟨heq ▸ hr, hsuccess⟩) (by simp)
  · rw [hreq] at hlast hok
    simp only [decide_eq_true_eq]
    have hr := ((hok r).mp rfl).1
    constructor
    · exact fun h => ⟨last, r, hlast, hr, h⟩
    · rintro ⟨last', r', hlast', hr', hstatus⟩
      have heq : last = last' := Option.some.inj (hlast.symm.trans hlast')
      rw [← heq, hr] at hr'
      rw [Outcome.response.inj hr']
      exact hstatus

end ManhattanSimulatorHttpClient

end RulesEnrichment
