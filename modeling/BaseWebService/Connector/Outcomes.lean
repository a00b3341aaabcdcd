import BaseWebService.Connector.Basic
import BaseWebService.CircuitBreaker.Liveness

/-!
# One outcome per admitted request

A request is run against the breaker's own methods and an HTTP call that ends in any way. Its log
says whether it was admitted, which calls it made and which outcomes it reported. An admitted
request leaves `request` without a report on three ways: one of its two log lines raises, or its
HTTP call ends with an exception that is no timeout.
-/

namespace BaseWebService.Connector

open Library Redis CircuitBreaker

variable {V : Type}

/-- What a request has done. -/
inductive Entry (V : Type) where
  | asked (reply : Except CircuitBreaker.Error CircuitBreakerDecision)
  | sent (kwargs : RequestKwargs V)
  | recorded (success : Bool)

/-- Redis, how the next HTTP call will end, and the log of the request. -/
structure World (V : Type) where
  redis : HashServer
  attempt : Attempt
  log : List (Entry V)

/-- Redis at the end of an HTTP call. -/
def Attempt.elapse (a : Attempt) (s : HashServer) : HashServer where
  now := s.now + a.durationMs
  key := s.key.filter fun h => !(a.lapses && h.deadline.any (· ≤ s.now + a.durationMs))

namespace BaseAsyncHttpConnector

variable (c : BaseAsyncHttpConnector V)

/-- The breaker's methods are run as a whole. -/
def exec : (cmd : Cmd V) → World V → cmd.Reply × World V
  | .allowRequest, w =>
    let (reply, redis) := c.circuitBreaker.allowRequest.run HashServer.exec w.redis
    (reply, { w with redis, log := w.log ++ [.asked reply] })
  | .recordTimeout, w =>
    let (reply, redis) := c.circuitBreaker.recordTimeout.run HashServer.exec w.redis
    (reply, { w with redis, log := w.log ++ [.recorded false] })
  | .recordFailure, w =>
    let (reply, redis) := c.circuitBreaker.recordFailure.run HashServer.exec w.redis
    (reply, { w with redis, log := w.log ++ [.recorded false] })
  | .recordSuccess, w =>
    let (reply, redis) := c.circuitBreaker.recordSuccess.run HashServer.exec w.redis
    (reply, { w with redis, log := w.log ++ [.recorded true] })
  | .send kwargs, w =>
    (w.attempt, { w with redis := w.attempt.elapse w.redis, log := w.log ++ [.sent kwargs] })

end BaseAsyncHttpConnector

/-! ## Logs -/

/-- The breaker let the request pass. -/
def admitted (log : List (Entry V)) : Bool :=
  log.any fun
    | .asked (.ok d) => d.allowed
    | _ => false

def httpCalls (log : List (Entry V)) : ℕ :=
  log.countP fun
    | .sent _ => true
    | _ => false

/-- The outcomes reported to the breaker; `true` is a success. -/
def outcomes (log : List (Entry V)) : List Bool :=
  log.filterMap fun
    | .recorded success => some success
    | _ => none

/-- A response was received, with a status below 500 other than 429. -/
def HttpOutcome.succeeds : HttpOutcome → Bool
  | .response r => r.statusCode < 500 ∧ r.statusCode ≠ 429
  | _ => false

/-- A rejected request makes no call and reports nothing; any other makes one call and reports
its outcome. -/
structure OneOutcome (outcome : HttpOutcome) (log : List (Entry V)) : Prop where
  rejected : admitted log = false → httpCalls log = 0 ∧ outcomes log = []
  admitted : admitted log = true → httpCalls log = 1 ∧ outcomes log = [outcome.succeeds]

theorem oneOutcome_rejected {outcome : HttpOutcome} {d : CircuitBreakerDecision}
    (h : d.allowed = false) : OneOutcome outcome [Entry.asked (V := V) (.ok d)] :=
  ⟨fun _ => ⟨rfl, rfl⟩, by simp [admitted, h]⟩

theorem oneOutcome_reported (outcome : HttpOutcome) {d : CircuitBreakerDecision}
    (h : d.allowed = true) (kwargs : RequestKwargs V) :
    OneOutcome outcome [.asked (.ok d), .sent kwargs, .recorded outcome.succeeds] :=
  ⟨by simp [admitted, h], fun _ => ⟨rfl, rfl⟩⟩

/-- An exit that reports nothing breaks the law. -/
theorem not_oneOutcome_unreported (outcome : HttpOutcome) {log : List (Entry V)}
    (hadmitted : admitted log = true) (hsilent : outcomes log = []) : ¬ OneOutcome outcome log := by
  intro hlaw
  simpa [hsilent] using (hlaw.admitted hadmitted).2

/-! ## Runs -/

/-- A request, or the loss of the breaker's key between two requests. -/
inductive Event (V : Type) where
  | request (r : Request V) (time : Int) (attempt : Attempt) (log : List (Entry V))
  | expire (time : Int)

inductive Step (c : BaseAsyncHttpConnector V) : HashServer → Event V → HashServer → Prop where
  | request {s : HashServer} {r : Request V} {time : Int} {attempt : Attempt}
      {result : Except RequestError CustomResponse} {w : World V} : s.now ≤ time →
      (c.request r).run c.exec ⟨{ s with now := time }, attempt, []⟩ = (result, w) →
      Step c s (.request r time attempt w.log) w.redis
  | expire {s : HashServer} {h : Hash} {d time : Int} :
      s.now ≤ time → s.key = some h → h.deadline = some d → d ≤ time →
      Step c s (.expire time) ⟨time, none⟩

/-- What reporting an outcome leaves. -/
def report (b : RedisCircuitBreaker) (success : Bool) (s : HashServer) : HashServer :=
  if success then (b.recordSuccess.run HashServer.exec s).2
  else (b.recordFailure.run HashServer.exec s).2

/-- The breaker is asked in `s` and lets the request pass. -/
def Admits (b : RedisCircuitBreaker) (s : HashServer) : Prop :=
  ∃ d t, b.allowRequest.run HashServer.exec s = (.ok d, t) ∧ d.allowed = true

/-- An admitted request ends without a report: a log line raises, or its HTTP call ends with an
exception that is no timeout. -/
inductive Silent (c : BaseAsyncHttpConnector V) (r : Request V) : HttpOutcome → Prop where
  | unsent {outcome : HttpOutcome} {text : String} :
      c.logRequest r = .error text → Silent c r outcome
  | broken {text : String} : Silent c r (.otherException text)
  | unlogged {response : HttpResponse} {text : String} :
      c.logResponse response = .error text → Silent c r (.response response)

/-- The request is admitted and ends without a report. -/
def Unreported (c : BaseAsyncHttpConnector V) (s : HashServer) : Event V → Prop
  | .request r time attempt _ => (∃ url, c.makeUrl r.pathOrUrl = .ok url) ∧
      Admits c.circuitBreaker { s with now := time } ∧ Silent c r attempt.outcome
  | .expire _ => False

/-- A failed request that was admitted counts: `record_failure` has been executed when its HTTP
call had ended, and a HALF_OPEN breaker whose key is still there is open again. -/
def Counts (b : RedisCircuitBreaker) (s : HashServer) (time : Int) (attempt : Attempt)
    (t : HashServer) : Prop :=
  ∃ d u, b.allowRequest.run HashServer.exec { s with now := time } = (.ok d, u) ∧
    t = (b.recordFailure.run HashServer.exec (attempt.elapse u)).2 ∧
    (d.mode = modeHalfOpen → (attempt.elapse u).key ≠ none → storedMode t = modeOpen)

/-- What every step of a connector should be. -/
def Lawful (c : BaseAsyncHttpConnector V) (s : HashServer) : Event V → HashServer → Prop
  | .request _ time attempt log, t => OneOutcome attempt.outcome log ∧
      (admitted log = true → attempt.outcome.succeeds = false →
        Counts c.circuitBreaker s time attempt t)
  | .expire _, _ => True

/-! ## What one request does -/

section methods
variable (b : RedisCircuitBreaker) (s : HashServer)

/-- The handlers of the breaker catch everything. -/
theorem exists_of_handle {α : Type} (p : CircuitBreaker.M α) (a : α) :
    ∃ d t, (p.handle fun _ => .ret a).run HashServer.exec s = (.ok d, t) := by
  rw [Prog.run_handle]
  rcases p.run HashServer.exec s with ⟨_ | d, t⟩
  · exact ⟨_, _, rfl⟩
  · exact ⟨_, _, rfl⟩

theorem exists_allowRequest :
    ∃ d t, b.allowRequest.run HashServer.exec s = (.ok d, t) := by
  unfold RedisCircuitBreaker.allowRequest
  split_ifs
  · exact ⟨_, _, rfl⟩
  · exact exists_of_handle s _ _

theorem run_recordFailure :
    b.recordFailure.run HashServer.exec s = (.ok (), report b false s) := by
  have hok : ∃ d t, b.recordFailure.run HashServer.exec s = (.ok d, t) := by
    unfold RedisCircuitBreaker.recordFailure
    split_ifs
    · exact ⟨_, _, rfl⟩
    · exact exists_of_handle s _ _
  obtain ⟨⟨⟩, t, hrun⟩ := hok
  simp [report, hrun]

theorem run_recordSuccess :
    b.recordSuccess.run HashServer.exec s = (.ok (), report b true s) := by
  have hok : ∃ d t, b.recordSuccess.run HashServer.exec s = (.ok d, t) := by
    unfold RedisCircuitBreaker.recordSuccess
    split_ifs
    · exact ⟨_, _, rfl⟩
    · exact exists_of_handle s _ _
  obtain ⟨⟨⟩, t, hrun⟩ := hok
  simp [report, hrun]

end methods

theorem succeeds_response (r : HttpResponse) : (HttpOutcome.response r).succeeds =
    !decide (r.statusCode ≥ 500 ∨ r.statusCode = 429) := by
  simp only [HttpOutcome.succeeds]
  grind

/-- The ways a request goes once the breaker has been asked. -/
inductive Went (c : BaseAsyncHttpConnector V) (r : Request V) (url : String)
    (d : CircuitBreakerDecision) (u : HashServer) (attempt : Attempt) : World V → Prop where
  | rejected : d.allowed = false → Went c r url d u attempt ⟨u, attempt, [.asked (.ok d)]⟩
  | unsent {text : String} : d.allowed = true → c.logRequest r = .error text →
      Went c r url d u attempt ⟨u, attempt, [.asked (.ok d)]⟩
  | unreported : d.allowed = true → c.logRequest r = .ok () → Silent c r attempt.outcome →
      Went c r url d u attempt
        ⟨attempt.elapse u, attempt, [.asked (.ok d), .sent (c.requestKwargs r url)]⟩
  | reported : d.allowed = true → ¬ Silent c r attempt.outcome → Went c r url d u attempt
      ⟨report c.circuitBreaker attempt.outcome.succeeds (attempt.elapse u), attempt,
        [.asked (.ok d), .sent (c.requestKwargs r url), .recorded attempt.outcome.succeeds]⟩

theorem request_went {c : BaseAsyncHttpConnector V} {r : Request V} {s u : HashServer}
    (attempt : Attempt) {url : String} {d : CircuitBreakerDecision}
    (hurl : c.makeUrl r.pathOrUrl = .ok url)
    (hask : c.circuitBreaker.allowRequest.run HashServer.exec s = (.ok d, u)) :
    Went c r url d u attempt ((c.request r).run c.exec ⟨s, attempt, []⟩).2 := by
  have hasked : c.exec .allowRequest ⟨s, attempt, []⟩ =
      (.ok d, ⟨u, attempt, [.asked (.ok d)]⟩) := by
    simp [BaseAsyncHttpConnector.exec, hask]
  rw [BaseAsyncHttpConnector.request, hurl]
  simp only [Prog.perform_bind, Prog.run_call, hasked, BaseAsyncHttpConnector.reported,
    Prog.pure_def, Prog.ret_bind]
  cases hallowed : d.allowed with
  | false => exact .rejected hallowed
  | true =>
    simp only [Bool.not_true, Bool.false_eq_true, if_false]
    cases hrequest : c.logRequest r with
    | error text => exact .unsent hallowed hrequest
    | ok =>
      simp only [BaseAsyncHttpConnector.logged, Prog.pure_def, Prog.ret_bind, Prog.run_call,
        BaseAsyncHttpConnector.exec]
      cases houtcome : attempt.outcome with
      | otherException text => exact .unreported hallowed hrequest (houtcome ▸ .broken)
      | poolTimeout | timeoutException =>
        have hreported : ¬ Silent c r attempt.outcome := by
          rw [houtcome]
          rintro ⟨⟩
          simp_all
        convert (Went.reported hallowed hreported : Went c r url d u attempt _) using 1
        simp [RedisCircuitBreaker.recordTimeout, run_recordFailure, BaseAsyncHttpConnector.exec,
          HttpOutcome.succeeds, houtcome]
      | response response =>
        dsimp only
        cases hresponse : c.logResponse response with
        | error text =>
          have hsilent : Silent c r attempt.outcome := houtcome ▸ .unlogged hresponse
          exact .unreported hallowed hrequest hsilent
        | ok =>
          have hreported : ¬ Silent c r attempt.outcome := by
            rw [houtcome]
            rintro ⟨⟩ <;> simp_all
          convert (Went.reported hallowed hreported : Went c r url d u attempt _) using 1
          rw [houtcome, succeeds_response]
          by_cases hfails : response.statusCode ≥ 500 ∨ response.statusCode = 429
          · simp [hfails, run_recordFailure, BaseAsyncHttpConnector.exec]
          · simp [hfails, run_recordSuccess, BaseAsyncHttpConnector.exec]

/-! ## A failed probe -/

section probes
variable {b : RedisCircuitBreaker} {s u : HashServer} {d : CircuitBreakerDecision}

theorem hget_mode_of_probe {mode : String} (hmode : s.hget "mode" = some mode)
    (hrun : (RedisCircuitBreaker.probe mode).run HashServer.exec s = (.ok d, u)) :
    d.mode = mode ∧ u.hget "mode" = some mode := by
  cases hcount : pyInt ((s.hget "half_open_requests").getD "0") with
  | none =>
    have hfails : (RedisCircuitBreaker.increment "half_open_requests").run HashServer.exec s =
        (.error .responseError, s) := by
      simp [RedisCircuitBreaker.increment, HashServer.hincrby, hcount]
    rw [RedisCircuitBreaker.probe, Prog.run_bind, hfails] at hrun
    simp at hrun
  | some n =>
    have hcounts : (RedisCircuitBreaker.increment "half_open_requests").run HashServer.exec s =
        (.ok (n + 1), s.hset [("half_open_requests", pyStr (n + 1))]) := by
      simp [RedisCircuitBreaker.increment, HashServer.hincrby, hcount]
    rw [RedisCircuitBreaker.probe, Prog.run_bind_ok _ hcounts] at hrun
    obtain ⟨hd, rfl⟩ := Prod.mk.inj hrun
    obtain rfl := Except.ok.inj hd
    exact ⟨rfl, by simpa [hget_hset_singleton] using hmode⟩

/-- The `try` block ends in HALF_OPEN only where the hash says so. -/
theorem hget_mode_of_try (hrun : b.allowRequestTry.run HashServer.exec s = (.ok d, u))
    (hmode : d.mode = modeHalfOpen) : u.hget "mode" = some modeHalfOpen := by
  rw [RedisCircuitBreaker.allowRequestTry, run_hget] at hrun
  cases hold : s.hget "mode" with
  | none =>
    rw [hold] at hrun
    obtain ⟨hd, -⟩ := Prod.mk.inj hrun
    obtain rfl := Except.ok.inj hd
    simp at hmode
  | some mode =>
    rw [hold] at hrun
    dsimp only at hrun
    split_ifs at hrun with hclosed hopen
    · obtain ⟨hd, -⟩ := Prod.mk.inj hrun
      obtain rfl := Except.ok.inj hd
      simp [hclosed] at hmode
    · rw [run_hget] at hrun
      rcases RedisCircuitBreaker.asInt_cases (some (str (s.hget "open_until_ms"))) with
        ⟨n, hn⟩ | ⟨e, he⟩
      · rw [hn, Prog.ret_bind, run_hashTime] at hrun
        split_ifs at hrun
        · obtain ⟨hd, -⟩ := Prod.mk.inj hrun
          obtain rfl := Except.ok.inj hd
          simp [hopen] at hmode
        · rw [Prog.run_bind_ok _ (b.run_hsetState _ _)] at hrun
          refine (hget_mode_of_probe ?_ hrun).2
          cases hkey : s.key <;> simp [HashServer.hget, Hash.set]
      · simp [he] at hrun
    · obtain ⟨hd, hu⟩ := hget_mode_of_probe hold hrun
      rw [hu, ← hd, hmode]

/-- A decision taken in HALF_OPEN leaves the breaker there. -/
theorem hget_mode_of_halfOpen (hrun : b.allowRequest.run HashServer.exec s = (.ok d, u))
    (hmode : d.mode = modeHalfOpen) : b.isEnabled = true ∧ u.hget "mode" = some modeHalfOpen := by
  cases hon : b.isEnabled with
  | false =>
    rw [RedisCircuitBreaker.allowRequest, hon] at hrun
    obtain ⟨hd, -⟩ := Prod.mk.inj hrun
    obtain rfl := Except.ok.inj hd
    simp at hmode
  | true =>
    refine ⟨rfl, ?_⟩
    rw [RedisCircuitBreaker.allowRequest_of_isEnabled hon, Prog.run_handle] at hrun
    rcases htry : b.allowRequestTry.run HashServer.exec s with ⟨_ | d', t⟩ <;> rw [htry] at hrun
    · obtain ⟨hd, -⟩ := Prod.mk.inj hrun
      obtain rfl := Except.ok.inj hd
      simp at hmode
    · obtain ⟨hd, rfl⟩ := Prod.mk.inj hrun
      obtain rfl := Except.ok.inj hd
      exact hget_mode_of_try htry hmode

/-- A failure recorded in HALF_OPEN opens the breaker. -/
theorem storedMode_report (hon : b.isEnabled = true) (hmode : s.hget "mode" = some modeHalfOpen) :
    storedMode (report b false s) = modeOpen := by
  obtain ⟨t, hrun, -, ht⟩ := b.openState_spec s.now none s rfl
  have hreport : b.recordFailure.run HashServer.exec s = (.ok (), t) := by
    simp [RedisCircuitBreaker.recordFailure, hon, Prog.run_handle, hmode,
      RedisCircuitBreaker.modeOrClosed, hrun]
  rw [run_recordFailure] at hreport
  obtain ⟨-, rfl⟩ := Prod.mk.inj hreport
  exact RedisCircuitBreaker.storedMode_eq ht

theorem hget_elapse {a : Attempt} (hkey : (a.elapse s).key ≠ none) (field : String) :
    (a.elapse s).hget field = s.hget field := by
  cases hold : s.key with
  | none => simp [Attempt.elapse, hold] at hkey
  | some h =>
    simp only [Attempt.elapse, hold, Option.filter] at hkey ⊢
    split_ifs at hkey ⊢
    · simp [HashServer.hget, hold]
    · simp at hkey

theorem counts_of_report (attempt : Attempt) {time : Int}
    (hrun : b.allowRequest.run HashServer.exec { s with now := time } = (.ok d, u)) :
    Counts b s time attempt (report b false (attempt.elapse u)) := by
  refine ⟨d, u, hrun, by rw [run_recordFailure], fun hmode hkey => ?_⟩
  obtain ⟨hon, hhalf⟩ := hget_mode_of_halfOpen hrun hmode
  exact storedMode_report hon ((hget_elapse hkey _).trans hhalf)

end probes

/-! ## When the law holds -/

theorem lawful_iff {c : BaseAsyncHttpConnector V} {s t : HashServer} {e : Event V}
    (hstep : Step c s e t) : Lawful c s e t ↔ ¬ Unreported c s e := by
  cases hstep with
  | expire => simp [Lawful, Unreported]
  | @request r time attempt result w hle hrun =>
    cases hurl : c.makeUrl r.pathOrUrl with
    | error text =>
      rw [BaseAsyncHttpConnector.request, hurl] at hrun
      obtain ⟨-, rfl⟩ := Prod.mk.inj hrun
      have hlaw : OneOutcome attempt.outcome ([] : List (Entry V)) :=
        ⟨fun _ => ⟨rfl, rfl⟩, by simp [admitted]⟩
      simp [Lawful, Unreported, hurl, hlaw, admitted]
    | ok url =>
      obtain ⟨d, u, hask⟩ := exists_allowRequest c.circuitBreaker { s with now := time }
      have hwent := request_went attempt hurl hask
      rw [hrun] at hwent
      have hadmits : Admits c.circuitBreaker { s with now := time } ↔ d.allowed = true := by
        simp [Admits, hask]
      cases hwent with
      | rejected hallowed =>
        simp [Lawful, Unreported, hadmits, hallowed, oneOutcome_rejected, admitted]
      | unsent hallowed hraises =>
        have hbroken : ¬ OneOutcome attempt.outcome [Entry.asked (V := V) (.ok d)] :=
          not_oneOutcome_unreported _ (by simp [admitted, hallowed]) rfl
        have hsilent : Silent c r attempt.outcome := .unsent hraises
        simp [Lawful, Unreported, hadmits, hallowed, hurl, hbroken, hsilent]
      | unreported hallowed _ hsilent =>
        have hbroken : ¬ OneOutcome attempt.outcome
            [.asked (.ok d), .sent (c.requestKwargs r url)] :=
          not_oneOutcome_unreported _ (by simp [admitted, hallowed]) rfl
        simp [Lawful, Unreported, hadmits, hallowed, hurl, hbroken, hsilent]
      | reported hallowed hreported =>
        have hlaw := oneOutcome_reported attempt.outcome hallowed (c.requestKwargs r url)
        refine iff_of_true ⟨hlaw, fun _ hfails => ?_⟩ fun h => hreported h.2.2
        rw [hfails]
        exact counts_of_report attempt hask

/-! ## Runs against a service that never answers -/

def Event.log : Event V → List (Entry V)
  | .request _ _ _ log => log
  | .expire _ => []

/-- No response comes back, for whatever reason. -/
def Event.Unanswered : Event V → Prop
  | .request _ _ attempt _ => ∀ r, attempt.outcome ≠ .response r
  | .expire _ => True

/-- How many requests of a run were admitted. -/
def admissions (tr : List (Transition HashServer (Event V))) : ℕ :=
  tr.countP fun x => admitted x.label.log

/-- How many failures a run has reported to the breaker. -/
def failures (tr : List (Transition HashServer (Event V))) : ℕ :=
  (tr.flatMap fun x => outcomes x.label.log).count false

theorem succeeds_of_unanswered {o : HttpOutcome} (h : ∀ r, o ≠ .response r) :
    o.succeeds = false := by
  cases o with
  | response r => exact absurd rfl (h r)
  | poolTimeout | timeoutException | otherException => rfl

theorem log_of_unreported {c : BaseAsyncHttpConnector V} {s t : HashServer} {e : Event V}
    (hstep : Step c s e t) (h : Unreported c s e) :
    outcomes e.log = [] ∧ admitted e.log = true := by
  cases hstep with
  | expire => exact h.elim
  | @request r time attempt result w hle hrun =>
    obtain ⟨⟨url, hurl⟩, ⟨d, u, hask, hallowed⟩, hsilent⟩ := h
    have hwent := request_went attempt hurl hask
    rw [hrun] at hwent
    cases hwent with
    | rejected hnot => simp [hnot] at hallowed
    | reported _ hreported => exact absurd hsilent hreported
    | unsent | unreported => simp [Event.log, outcomes, admitted, hallowed]

theorem log_of_reported {c : BaseAsyncHttpConnector V} {s t : HashServer} {e : Event V}
    (hstep : Step c s e t) (hsilent : e.Unanswered) (h : ¬ Unreported c s e) :
    outcomes e.log = if admitted e.log then [false] else [] := by
  have hlaw := (lawful_iff hstep).mpr h
  cases e with
  | expire => rfl
  | request r time attempt log =>
    obtain ⟨hone, -⟩ := hlaw
    change outcomes log = if admitted log = true then [false] else []
    split_ifs with hadmitted
    · rw [(hone.admitted hadmitted).2, succeeds_of_unanswered hsilent]
    · exact (hone.rejected (by simpa using hadmitted)).2

/-- Failures go unreported only where a request was admitted. -/
theorem failures_eq_iff {c : BaseAsyncHttpConnector V} {s t : HashServer}
    {tr : List (Transition HashServer (Event V))} (hrun : Run (Step c) s tr t)
    (hsilent : ∀ x ∈ tr, x.label.Unanswered) : failures tr ≤ admissions tr ∧
    (failures tr = admissions tr ↔ ∀ x ∈ tr, ¬ Unreported c x.before x.label) := by
  induction hrun with
  | nil => simp [failures, admissions]
  | @snoc tr t u e hrun hstep ih =>
    obtain ⟨hle, hiff⟩ := ih fun x hx => hsilent x (List.mem_append_left _ hx)
    have hfailures : failures (tr ++ [⟨t, e, u⟩]) = failures tr + (outcomes e.log).count false := by
      simp [failures]
    have hadmissions : admissions (tr ++ [⟨t, e, u⟩]) =
        admissions tr + if admitted e.log then 1 else 0 := by
      simp [admissions, List.countP_append, List.countP_cons]
    have hall : (∀ x ∈ tr ++ [⟨t, e, u⟩], ¬ Unreported c x.before x.label) ↔
        (∀ x ∈ tr, ¬ Unreported c x.before x.label) ∧ ¬ Unreported c t e := by
      simp [or_imp, forall_and]
    rw [hfailures, hadmissions, hall, ← hiff]
    by_cases hlost : Unreported c t e
    · obtain ⟨houtcomes, hadmitted⟩ := log_of_unreported hstep hlost
      rw [houtcomes, if_pos hadmitted]
      simp only [List.count_nil]
      grind
    · rw [log_of_reported hstep (hsilent ⟨t, e, u⟩ (by simp)) hlost]
      split_ifs <;> simp [hlost, hle]

/-- Texts are logged as they are; none is JSON. -/
def sampleLogging : LogRuntime String where
  toRuntime := .ofTexts [] (by simp)
  tree := .str
  fits _ := true
  fits_str _ := rfl
  str
    | .str text => .ok text
    | _ => .ok ""
  info _ := .ok ()

/-- A connector with the default breaker, for absolute URLs. -/
def sampleConnector : BaseAsyncHttpConnector String where
  config := ⟨none, 10, none, CircuitBreakerConfig.default⟩
  defaultHeaders := []
  sourceService := "EInvoiceService"
  joinUrl _ _ := .error "TypeError"
  redisEnabled := true
  logging := sampleLogging

def sampleRequest : Request String where
  method := "get"
  pathOrUrl := "http://provider.test/invoices"
  body := none
  data := none
  headers := none
  params := none
  timeoutS := none

/-- A breaker at the start of its HALF_OPEN state. -/
def halfOpenServer : HashServer where
  now := 63000
  key := some ⟨(Hash.empty.set [("mode", modeHalfOpen), ("half_open_successes", pyStr (0 : Int)),
    ("half_open_requests", pyStr (0 : Int))]).fields, some 183000⟩

theorem sample_makeUrl :
    sampleConnector.makeUrl sampleRequest.pathOrUrl = .ok "http://provider.test/invoices" := by
  simp [BaseAsyncHttpConnector.makeUrl, sampleRequest]

theorem sample_logRequest : sampleConnector.logRequest sampleRequest = .ok () := rfl

theorem sample_allowRequest : ∃ u, sampleConnector.circuitBreaker.allowRequest.run HashServer.exec
    halfOpenServer = (.ok ⟨true, modeHalfOpen⟩, u) ∧ u.now = 63000 ∧
    Represents u (some (.halfOpen 0 1, 183000)) := by
  have hrep : Represents halfOpenServer (some (.halfOpen 0 0, 183000)) :=
    ⟨_, rfl, rfl, by simp [Phase.Stored, Hash.set]⟩
  have hon : sampleConnector.circuitBreaker.isEnabled = true := rfl
  obtain ⟨u, hrun, hnow, hu⟩ := RedisCircuitBreaker.allowRequest_spec _ hon hrep
  exact ⟨u, hrun, hnow, hu⟩

/-- The probe, however its HTTP call ends. -/
theorem sample_step (attempt : Attempt) : ∃ u w, Represents u (some (.halfOpen 0 1, 183000)) ∧
    Went sampleConnector sampleRequest "http://provider.test/invoices" ⟨true, modeHalfOpen⟩ u
      attempt w ∧
    Step sampleConnector halfOpenServer (.request sampleRequest 63000 attempt w.log) w.redis := by
  obtain ⟨u, hask, -, hrep⟩ := sample_allowRequest
  have hwent := request_went attempt sample_makeUrl hask
  rcases hrun : (sampleConnector.request sampleRequest).run sampleConnector.exec
    ⟨halfOpenServer, attempt, []⟩ with ⟨result, w⟩
  rw [hrun] at hwent
  exact ⟨u, w, hrep, hwent, .request (s := halfOpenServer) (Int.le_refl 63000) hrun⟩

end BaseWebService.Connector
