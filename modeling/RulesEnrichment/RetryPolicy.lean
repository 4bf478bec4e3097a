import Mathlib.Algebra.Order.Ring.Rat
import Mathlib.Tactic.Linarith
import RulesEnrichment.Model.Basic

/-! # The retry policy

    `RetryPolicy.run` calls a function until it gets a response below 500,
    sleeping between the calls. What the function does at each call and
    the jitter are inputs; the calls and the sleeps are recorded as
    `Event`s, in their order. Delays are exact rationals.

    `loop_cases` says once where the loop can end and what it has done by
    then, `run_spec` says it in terms of the first outcome that is not
    retried. -/

namespace RulesEnrichment

/-! ## Responses and errors of `httpx` -/

structure Request where
  method : String
  url : String
  deriving DecidableEq

/-- A response that a client has received; it has the request it answers. -/
structure Response where
  statusCode : Nat
  request : Request
  content : String
  deriving DecidableEq

/-- What a call can raise. -/
inductive HttpError where
  /-- `httpx.TimeoutException` -/
  | timeout (msg : String)
  /-- `httpx.TransportError` -/
  | transport (msg : String)
  /-- `httpx.HTTPStatusError` -/
  | status (msg : String) (request : Request) (response : Response)
  /-- Any other exception. -/
  | other (e : PyErr)
  deriving DecidableEq

/-- The classes that `run` catches. -/
def HttpError.retryable : HttpError → Bool
  | .timeout _ => true
  | .transport _ => true
  | .status _ _ _ => true
  | .other _ => false

/-- What a call of the function comes to. -/
inductive Outcome where
  | response (r : Response)
  | raised (e : HttpError)
  deriving DecidableEq

/-- The body of the `try`: a status of 500 or more is raised as well. -/
def Outcome.check : Outcome → Except HttpError Response
  | .response r =>
    if 500 ≤ r.statusCode then .error (.status "server error" r.request r) else .ok r
  | .raised e => .error e

/-- A retryable error, or a response with a status of 500 or more. -/
def Outcome.retried : Outcome → Bool
  | .response r => 500 ≤ r.statusCode
  | .raised e => e.retryable

/-- The outcome, handed on as it is. -/
def Outcome.result : Outcome → Except HttpError Response
  | .response r => .ok r
  | .raised e => .error e

/-- The error that a retried outcome stands for. -/
def Outcome.error : Outcome → HttpError
  | .response r => .status "server error" r.request r
  | .raised e => e

theorem Outcome.check_of_retried {o : Outcome} (h : o.retried = true) :
    o.check = .error o.error ∧ o.error.retryable = true := by
  match o with
  | .response r => exact ⟨if_pos (of_decide_eq_true h), rfl⟩
  | .raised e => exact ⟨rfl, h⟩

theorem Outcome.check_of_not_retried {o : Outcome} (h : o.retried = false) :
    o.check = o.result := by
  match o with
  | .response r => exact if_neg (of_decide_eq_false h)
  | .raised e => rfl

theorem Outcome.not_retryable {o : Outcome} (h : o.retried = false) {e : HttpError}
    (he : o.result = .error e) : e.retryable = false := by
  match o with
  | .response r => cases he
  | .raised e' =>
    have hee : e' = e := Except.error.inj he
    rw [← hee]
    exact h

/-! ## The loop -/

inductive Event where
  | call
  | sleep (seconds : ℚ)
  deriving DecidableEq

/-- How the `for` loop ends: by a `return`, by an exception, or because
    there are no attempts left. -/
inductive LoopEnd where
  | returned (r : Response)
  | raised (e : HttpError)
  | exhausted (lastError : Option HttpError)
  deriving DecidableEq

structure RetryPolicy where
  maxAttempts : Nat := 3
  baseDelaySeconds : ℚ := 1 / 4
  maxDelaySeconds : ℚ := 2

/-- What `time.sleep` raises of a negative delay. -/
def negativeSleep : HttpError := .other ⟨.other "ValueError", "sleep length must be non-negative"⟩

def failedUnexpectedly : HttpError :=
  .other ⟨.other "RuntimeError", "retry policy failed unexpectedly"⟩

namespace RetryPolicy

variable (p : RetryPolicy)

/-- The delay after an attempt. -/
def delay (attempt : Nat) (jitter : ℚ) : ℚ :=
  min p.maxDelaySeconds (2 ^ (attempt - 1) * p.baseDelaySeconds + jitter)

/-- `for attempt in …`; `fn` and `jitter` say what the call, and
    `random.uniform`, give in each attempt. -/
def loop (fn : Nat → Outcome) (jitter : Nat → ℚ) :
    List Nat → Option HttpError → List Event → LoopEnd × List Event
  | [], lastError, events => (.exhausted lastError, events)
  | attempt :: attempts, _, events =>
    match (fn attempt).check with
    | .ok response => (.returned response, events ++ [.call])
    | .error exc =>
      if !exc.retryable then (.raised exc, events ++ [.call])
      else if attempt = p.maxAttempts then (.raised exc, events ++ [.call])
      else if p.delay attempt (jitter attempt) < 0 then (.raised negativeSleep, events ++ [.call])
      else loop fn jitter attempts (some exc)
        (events ++ [.call, .sleep (p.delay attempt (jitter attempt))])

/-- The loop over `range(1, self.max_attempts + 1)`. -/
def attempts (fn : Nat → Outcome) (jitter : Nat → ℚ) : LoopEnd × List Event :=
  p.loop fn jitter (List.range' 1 p.maxAttempts) none []

/-- `RetryPolicy.run`, and the calls and sleeps it makes. -/
def run (fn : Nat → Outcome) (jitter : Nat → ℚ) : Except HttpError Response × List Event :=
  match p.attempts fn jitter with
  | (.returned r, events) => (.ok r, events)
  | (.raised e, events) => (.error e, events)
  | (.exhausted (some e), events) => (.error e, events)
  | (.exhausted none, events) => (.error failedUnexpectedly, events)

/-! ## How the loop ends -/

/-- The end of a loop in which an attempt came to a result. -/
def exitWith : Except HttpError Response → LoopEnd
  | .ok r => .returned r
  | .error e => .raised e

/-- The events of the attempts from `a` on that led to `j` more. -/
def trace (jitter : Nat → ℚ) (a j : Nat) : List Event :=
  .call :: (List.range' a j).flatMap fun i => [.sleep (p.delay i (jitter i)), .call]

theorem trace_succ (jitter : Nat → ℚ) (a j : Nat) :
    p.trace jitter a (j + 1) = [.call, .sleep (p.delay a (jitter a))] ++ p.trace jitter (a + 1) j := by
  unfold trace
  rw [List.range'_succ]
  rfl

variable {p} {fn : Nat → Outcome} {jitter : Nat → ℚ}

/-- An outcome that is not retried ends the loop. -/
theorem loop_of_not_retried {a : Nat} (h : (fn a).retried = false) (rest : List Nat)
    (lastError : Option HttpError) (events : List Event) :
    p.loop fn jitter (a :: rest) lastError events = (exitWith (fn a).result, events ++ [.call]) := by
  unfold loop
  rw [Outcome.check_of_not_retried h]
  rcases hr : (fn a).result with e | r
  · simp [Outcome.not_retryable h hr, exitWith]
  · rfl

/-- So does the last attempt. -/
theorem loop_of_last {a : Nat} (h : (fn a).retried = true) (hlast : a = p.maxAttempts)
    (rest : List Nat) (lastError : Option HttpError) (events : List Event) :
    p.loop fn jitter (a :: rest) lastError events =
      (.raised (fn a).error, events ++ [.call]) := by
  obtain ⟨hcheck, hretry⟩ := Outcome.check_of_retried h
  unfold loop
  rw [hcheck]
  simp only [hretry, Bool.not_true, Bool.false_eq_true, if_false, if_pos hlast]

/-- In between, the loop sleeps and goes on. -/
theorem loop_of_retried {a : Nat} (h : (fn a).retried = true) (hlast : a ≠ p.maxAttempts)
    (hdelay : 0 ≤ p.delay a (jitter a)) (rest : List Nat) (lastError : Option HttpError)
    (events : List Event) :
    p.loop fn jitter (a :: rest) lastError events =
      p.loop fn jitter rest (some (fn a).error)
        (events ++ [.call, .sleep (p.delay a (jitter a))]) := by
  obtain ⟨hcheck, hretry⟩ := Outcome.check_of_retried h
  conv_lhs => unfold loop
  rw [hcheck]
  simp only [hretry, Bool.not_true, Bool.false_eq_true, if_false, if_neg hlast,
    if_neg (not_lt.mpr hdelay)]

/-- **The loop**, from attempt `a` on with `m` left: it retries `j` times,
    and ends with an outcome that is not retried, or with the last one. -/
theorem loop_cases (hdelay : ∀ a, 0 ≤ p.delay a (jitter a)) {m a : Nat} (hm : 1 ≤ m)
    (ha : a + m = p.maxAttempts + 1) (lastError : Option HttpError) (events : List Event) :
    ∃ j, j < m ∧ (∀ i, i < j → (fn (a + i)).retried = true) ∧
      (((fn (a + j)).retried = false ∧ p.loop fn jitter (List.range' a m) lastError events =
          (exitWith (fn (a + j)).result, events ++ p.trace jitter a j)) ∨
        ((fn (a + j)).retried = true ∧ j + 1 = m ∧
          p.loop fn jitter (List.range' a m) lastError events =
            (.raised (fn (a + j)).error, events ++ p.trace jitter a j))) := by
  -- on the attempts left; the last one, and one that is not retried, end it
  induction m generalizing a lastError events with
  | zero => omega
  | succ m ih =>
    rw [List.range'_succ]
    rcases hr : (fn a).retried with _ | _
    · exact ⟨0, by omega, fun i hi => absurd hi (Nat.not_lt_zero i),
        Or.inl ⟨hr, loop_of_not_retried hr _ lastError events⟩⟩
    · by_cases hlast : a = p.maxAttempts
      · exact ⟨0, by omega, fun i hi => absurd hi (Nat.not_lt_zero i),
          Or.inr ⟨hr, by omega, loop_of_last hr hlast _ lastError events⟩⟩
      · -- one sleep, then the rest
        obtain ⟨j, hj, hbefore, hend⟩ := ih (a := a + 1) (by omega) (by omega) (some (fn a).error)
          (events ++ [.call, .sleep (p.delay a (jitter a))])
        have hstep : a + (j + 1) = a + 1 + j := by omega
        refine ⟨j + 1, by omega, ?_, ?_⟩
        · intro i hi
          rcases Nat.eq_zero_or_pos i with rfl | hpos
          · exact hr
          · have hi' := hbefore (i - 1) (by omega)
            rwa [show a + 1 + (i - 1) = a + i by omega] at hi'
        · rw [loop_of_retried hr hlast (hdelay a), hstep, p.trace_succ, ← List.append_assoc]
          rcases hend with ⟨hdone, hloop⟩ | ⟨hdone, hm', hloop⟩
          · exact Or.inl ⟨hdone, hloop⟩
          · exact Or.inr ⟨hdone, by omega, hloop⟩

/-! ## What `run` does -/

/-- The first outcome that is not retried. -/
def FirstSettled (fn : Nat → Outcome) (k : Nat) : Prop :=
  1 ≤ k ∧ (fn k).retried = false ∧ ∀ i, 1 ≤ i → i < k → (fn i).retried = true

theorem delay_bounds {a : Nat} (h : 0 ≤ jitter a ∧ jitter a ≤ p.baseDelaySeconds) :
    min p.maxDelaySeconds (2 ^ (a - 1) * p.baseDelaySeconds) ≤ p.delay a (jitter a) ∧
      p.delay a (jitter a) ≤
        min p.maxDelaySeconds (2 ^ (a - 1) * p.baseDelaySeconds + p.baseDelaySeconds) := by
  unfold delay
  constructor
  · exact min_le_min_left _ (by linarith)
  · exact min_le_min_left _ (by linarith)

theorem delay_nonneg (hbase : 0 ≤ p.baseDelaySeconds) (hmax : 0 ≤ p.maxDelaySeconds) {a : Nat}
    (h : 0 ≤ jitter a ∧ jitter a ≤ p.baseDelaySeconds) : 0 ≤ p.delay a (jitter a) := by
  have hpow : (0 : ℚ) ≤ 2 ^ (a - 1) * p.baseDelaySeconds := by positivity
  exact le_min hmax (by linarith)

/-- The calls and the sleeps of the attempts from 1 on. -/
theorem trace_eq (jitter : Nat → ℚ) (j : Nat) : p.trace jitter 1 j =
    .call :: ((List.range j).map fun i => p.delay (i + 1) (jitter (i + 1))).flatMap
      fun d => [.sleep d, .call] := by
  unfold trace
  rw [List.range'_eq_map_range, List.flatMap_map, List.flatMap_map]
  refine congrArg _ (congrArg (fun f => List.flatMap f (List.range j)) ?_)
  funext i
  rw [Nat.add_comm 1 i]

theorem count_call (delays : List ℚ) :
    (Event.call :: delays.flatMap fun d => [.sleep d, .call]).count .call = delays.length + 1 := by
  induction delays with
  | nil => rfl
  | cons d delays ih =>
    rw [List.count_cons_self] at ih ⊢
    rw [List.flatMap_cons, List.length_cons]
    show ([Event.sleep d, .call] ++ _).count .call + 1 = _
    rw [List.count_append]
    have htwo : [Event.sleep d, .call].count .call = 1 := rfl
    omega

theorem run_of_exitWith {r : Except HttpError Response} {events : List Event}
    (h : p.attempts fn jitter = (exitWith r, events)) :
    p.run fn jitter = (r, events) ∧ ∀ e, (p.attempts fn jitter).1 ≠ .exhausted e := by
  unfold run
  rw [h]
  rcases r with e | r
  · exact ⟨rfl, fun _ hno => LoopEnd.noConfusion hno⟩
  · exact ⟨rfl, fun _ hno => LoopEnd.noConfusion hno⟩

/-- `run` makes some number of calls, all but the last retried, and ends
    with the outcome of the last one, or with its error. -/
theorem run_cases (fn : Nat → Outcome) (hn : 1 ≤ p.maxAttempts)
    (hdelay : ∀ a, 0 ≤ p.delay a (jitter a)) :
    ∃ j, j + 1 ≤ p.maxAttempts ∧ (∀ i, 1 ≤ i → i < j + 1 → (fn i).retried = true) ∧
      (p.run fn jitter).2 = p.trace jitter 1 j ∧
      (∀ e, (p.attempts fn jitter).1 ≠ .exhausted e) ∧
      (((fn (j + 1)).retried = false ∧ (p.run fn jitter).1 = (fn (j + 1)).result) ∨
        ((fn (j + 1)).retried = true ∧ j + 1 = p.maxAttempts ∧
          (p.run fn jitter).1 = .error (fn (j + 1)).error)) := by
  obtain ⟨j, hj, hbefore, hend⟩ := loop_cases hdelay hn (a := 1) (by omega) none []
  rw [Nat.add_comm 1 j, List.nil_append] at hend
  have hretried : ∀ i, 1 ≤ i → i < j + 1 → (fn i).retried = true := by
    intro i hi hij
    have hi' := hbefore (i - 1) (by omega)
    rwa [show 1 + (i - 1) = i by omega] at hi'
  refine ⟨j, by omega, hretried, ?_⟩
  rcases hend with ⟨hdone, hloop⟩ | ⟨hdone, hlast, hloop⟩
  · obtain ⟨hrun, hno⟩ := run_of_exitWith hloop
    rw [hrun]
    exact ⟨rfl, hno, Or.inl ⟨hdone, rfl⟩⟩
  · obtain ⟨hrun, hno⟩ := run_of_exitWith (r := .error (fn (j + 1)).error) hloop
    rw [hrun]
    exact ⟨rfl, hno, Or.inr ⟨hdone, hlast, rfl⟩⟩

/-- **Retries.** Let `n` be the number of attempts and `k` the position of
    the first outcome that is not retried. `run` calls `min n k` times,
    sleeping once between two calls, and comes to the `k`-th outcome, or
    to the error of the `n`-th if `k` is greater or there is none. The
    loop always ends inside. -/
theorem run_spec (p : RetryPolicy) (fn : Nat → Outcome) (jitter : Nat → ℚ)
    (hn : 1 ≤ p.maxAttempts) (hbase : 0 ≤ p.baseDelaySeconds) (hmax : 0 ≤ p.maxDelaySeconds)
    (hjitter : ∀ a, 0 ≤ jitter a ∧ jitter a ≤ p.baseDelaySeconds) :
    (∀ k, FirstSettled fn k →
      (p.run fn jitter).2.count .call = min p.maxAttempts k ∧
      (k ≤ p.maxAttempts → (p.run fn jitter).1 = (fn k).result) ∧
      (p.maxAttempts < k → (p.run fn jitter).1 = .error (fn p.maxAttempts).error)) ∧
    ((∀ i, 1 ≤ i → (fn i).retried = true) →
      (p.run fn jitter).2.count .call = p.maxAttempts ∧
      (p.run fn jitter).1 = .error (fn p.maxAttempts).error) ∧
    (∃ delays : List ℚ,
      (p.run fn jitter).2 = .call :: delays.flatMap (fun d => [.sleep d, .call]) ∧
      ∀ i (h : i < delays.length),
        min p.maxDelaySeconds (2 ^ i * p.baseDelaySeconds) ≤ delays[i] ∧
        delays[i] ≤ min p.maxDelaySeconds (2 ^ i * p.baseDelaySeconds + p.baseDelaySeconds)) ∧
    ∀ e, (p.attempts fn jitter).1 ≠ .exhausted e := by
  obtain ⟨j, hj, hretried, htrace, hno, hend⟩ := run_cases fn hn
    (fun a => delay_nonneg hbase hmax (hjitter a))
  have hcalls : (p.run fn jitter).2.count .call = j + 1 := by
    rw [htrace, trace_eq, count_call, List.length_map, List.length_range]
  refine ⟨?_, ?_, ?_, hno⟩
  · intro k hk
    obtain ⟨hpos, hsettled, hfirst⟩ := hk
    -- the calls before the last one were retried, so `k` is not among them
    have hle : j + 1 ≤ k := by
      by_contra hlt
      have hk' := hretried k hpos (by omega)
      rw [hsettled] at hk'
      exact Bool.noConfusion hk'
    rcases hend with ⟨hdone, hres⟩ | ⟨hdone, hlast, hres⟩
    · have heq : k = j + 1 := by
        by_contra hne
        have hj' := hfirst (j + 1) (by omega) (by omega)
        rw [hdone] at hj'
        exact Bool.noConfusion hj'
      rw [hcalls, heq]
      exact ⟨by omega, fun _ => hres, fun hlt => absurd hlt (by omega)⟩
    · have hne : k ≠ j + 1 := by
        intro heq
        rw [heq, hdone] at hsettled
        exact Bool.noConfusion hsettled
      rw [hcalls, ← hlast]
      exact ⟨by omega, fun hle' => absurd hle' (by omega), fun _ => hres⟩
  · intro hall
    rcases hend with ⟨hdone, _⟩ | ⟨_, hlast, hres⟩
    · rw [hall (j + 1) (by omega)] at hdone
      exact Bool.noConfusion hdone
    · rw [hcalls, ← hlast]
      exact ⟨rfl, hres⟩
  · rw [htrace, trace_eq]
    refine ⟨_, rfl, ?_⟩
    intro i hi
    rw [List.getElem_map, List.getElem_range]
    have hb := delay_bounds (hjitter (i + 1))
    rwa [Nat.add_sub_cancel] at hb

/-- A server that is restarting: an error 503, a timeout, then an answer. -/
def restarting : Nat → Outcome
  | 1 => .response ⟨503, ⟨"GET", "/health"⟩, ""⟩
  | 2 => .raised (.timeout "timed out")
  | _ => .response ⟨200, ⟨"GET", "/health"⟩, "ok"⟩

theorem run_spec_restarting :
    (run {} restarting fun _ => 1 / 10).2.count .call = 3 ∧
      (run {} restarting fun _ => 1 / 10).1 = .ok ⟨200, ⟨"GET", "/health"⟩, "ok"⟩ := by
  have hfirst : FirstSettled restarting 3 := by
    refine ⟨by decide, rfl, ?_⟩
    intro i hi hlt
    obtain rfl | rfl : i = 1 ∨ i = 2 := by omega
    · rfl
    · rfl
  obtain ⟨hcalls, hresult, _⟩ := (run_spec {} restarting (fun _ => 1 / 10) (by decide)
    (by norm_num) (by norm_num) (fun _ => ⟨by norm_num, by norm_num⟩)).1 3 hfirst
  exact ⟨hcalls, hresult (by decide)⟩

end RetryPolicy

end RulesEnrichment
