import BaseWebService.RateLimit.Basic

/-!
# Which requests are metered

The dependency run against a limiter that only reports its calls: it meters a request by IP
exactly once, except for headers of a trusted peer whose client address is blank.
-/

namespace BaseWebService.RateLimit

open Library

/-- One call of `hit`, as the dependency makes it. -/
structure HitCall where
  key : String
  limit : Int
  windowSeconds : Int

abbrev Metered := Prog HitCall (fun _ => Except Error RateLimitResult) Error

/-- A limiter that only reports its calls. -/
def meter : Store Metered where
  hit key limit windowSeconds := do
    match ← Prog.perform ⟨key, limit, windowSeconds⟩ with
    | .ok result => pure result
    | .error e => throw e

/-- Calls are answered as `answer` says, with a result or an exception, and logged. -/
def record (answer : List HitCall → HitCall → Except Error RateLimitResult) (c : HitCall)
    (log : List HitCall) : Except Error RateLimitResult × List HitCall :=
  (answer log c, log ++ [c])

/-- Whether a call is in the scope that starts its key. -/
def inScope (scope : String) (c : HitCall) : Bool :=
  ("rate_limit:" ++ scope ++ ":").toList.isPrefixOf c.key.toList

def ipHits (log : List HitCall) : ℕ := log.countP (inScope "ip")

/-- The requests that pass unmetered: the headers of the peer are believed, and the header that
names the client gives a blank address. -/
def Unmetered (r : RateLimitArgs Metered) (config : RateLimitConfig) (request : Request Metered) :
    Prop :=
  trustsPeer request config (resolveBool r.trustProxyHeaders config.rateLimitTrustProxyHeaders) =
      true ∧
    match truthy (request.headers "x-forwarded-for") with
    | some forwardedFor => Blank (forwardedFor.toList.takeWhile (· != ','))
    | none => ∃ realIp, truthy (request.headers "x-real-ip") = some realIp ∧ Blank realIp.toList

/-! ## What the dependency reports -/

section report

variable {answer : List HitCall → HitCall → Except Error RateLimitResult} {digest : String → String}
  {request : Request Metered} {log : List HitCall}

theorem run_meter_hit (key : String) (limit windowSeconds : Int) :
    (meter.hit key limit windowSeconds).run (record answer) log =
      (answer log ⟨key, limit, windowSeconds⟩, log ++ [⟨key, limit, windowSeconds⟩]) := by
  cases hanswer : answer log ⟨key, limit, windowSeconds⟩ with
  | error | ok => simp [meter, record, hanswer]

/-- A check makes one call, in its own scope, whatever the answer. -/
theorem run_checkLimit (hstore : request.store = some meter) (scope identifier : String)
    (limit windowSeconds : Int) :
    ((checkLimit digest scope request identifier limit windowSeconds).run (record answer) log).2 =
      log ++ [⟨buildRateLimitKey digest scope request identifier, limit, windowSeconds⟩] := by
  simp only [checkLimit, getRateLimiterStore, hstore, Prog.pure_def, Prog.ret_bind]
  rw [Prog.run_bind, run_meter_hit]
  cases answer log _ with
  | error e => rfl
  | ok result => cases hexceeded : result.exceeded <;> simp [hexceeded]

/-- The key of a call starts with its scope. -/
theorem inScope_ip (identifier : String) (limit windowSeconds : Int) :
    inScope "ip" ⟨buildRateLimitKey digest "ip" request identifier, limit, windowSeconds⟩ =
      true := by
  simp only [inScope, buildRateLimitKey, String.toList_append, List.append_assoc]
  rfl

theorem inScope_auth (identifier : String) (limit windowSeconds : Int) :
    inScope "ip" ⟨buildRateLimitKey digest "auth" request identifier, limit, windowSeconds⟩ =
      false := by
  simp only [inScope, buildRateLimitKey, String.toList_append, List.append_assoc]
  rfl

/-- The IP check makes one call if there is an address to meter by, and none otherwise. -/
theorem ipHits_checkIpLimit (hstore : request.store = some meter) (config : RateLimitConfig)
    (limit windowSeconds : Int) (trust : Bool) :
    ipHits ((checkIpLimit digest request config limit windowSeconds trust).run (record answer)
        log).2 =
      ipHits log + if (truthy (getClientIp request config trust)).isSome then 1 else 0 := by
  unfold checkIpLimit
  cases truthy (getClientIp request config trust) with
  | none => rfl
  | some identifier =>
    rw [run_checkLimit hstore, ipHits, List.countP_append, List.countP_singleton, inScope_ip]
    rfl

/-- The check by identity makes no call in the IP scope. -/
theorem ipHits_checkAuthLimit (hstore : request.store = some meter) (identifier : String)
    (limit windowSeconds : Int) :
    ipHits ((checkAuthLimit digest request identifier limit windowSeconds).run (record answer)
      log).2 = ipHits log := by
  rw [checkAuthLimit, run_checkLimit hstore, ipHits, List.countP_append, List.countP_singleton,
    inScope_auth]
  rfl

theorem ipHits_dependency (hstore : request.store = some meter) {config : RateLimitConfig}
    {r : RateLimitArgs Metered} (henabled : config.rateLimitEnabled = true)
    (hip : resolveBool r.byIp config.rateLimitByIpEnabled = true) :
    ipHits ((r.dependency digest config request).run (record answer) []).2 =
      if (truthy (getClientIp request config
        (resolveBool r.trustProxyHeaders config.rateLimitTrustProxyHeaders))).isSome
      then 1 else 0 := by
  simp only [RateLimitArgs.dependency, henabled, hip, if_true]
  rw [Prog.run_bind]
  have hcheck : ipHits ((checkIpLimit digest request config
      (intOr r.ipRequests config.rateLimitIpRequests)
      (intOr r.ipWindowSeconds config.rateLimitIpWindowSeconds)
      (resolveBool r.trustProxyHeaders config.rateLimitTrustProxyHeaders)).run (record answer)
        []).2 = ipHits [] + _ := ipHits_checkIpLimit hstore config ..
  have hnone : ipHits [] = 0 := rfl
  rw [hnone, Nat.zero_add] at hcheck
  rw [← hcheck]
  rcases (checkIpLimit digest request config _ _ _).run (record answer) [] with ⟨_ | _, log'⟩
  · rfl
  · split_ifs
    · cases truthy (r.authIdentifierGetter.bind fun getter => getter request) with
      | none => rfl
      | some identifier => exact ipHits_checkAuthLimit hstore ..
    · rfl

end report

/-- The address a request is metered by is missing or blank exactly if the request is one of
those that pass unmetered. -/
theorem truthy_getClientIp_isSome {config : RateLimitConfig} {r : RateLimitArgs Metered}
    {request : Request Metered} {host : String} (hclient : request.client = some host)
    (hhost : host ≠ "") :
    (truthy (getClientIp request config
      (resolveBool r.trustProxyHeaders config.rateLimitTrustProxyHeaders))).isSome = true ↔
      ¬ Unmetered r config request := by
  have hstrip : ∀ text, (truthy (some (pyStrip text))).isSome = true ↔ ¬ Blank text.toList := by
    intro text
    rw [← pyStrip_eq_empty_iff]
    simp [truthy]
  have hdirect : (truthy request.client).isSome = true := by simp [truthy, hclient, hhost]
  unfold Unmetered getClientIp
  cases htrust : trustsPeer request config
      (resolveBool r.trustProxyHeaders config.rateLimitTrustProxyHeaders) with
  | false => simp [hdirect]
  | true =>
    simp only [if_true, true_and]
    cases truthy (request.headers "x-forwarded-for") with
    | some forwardedFor =>
      simp only [firstElement]
      rw [hstrip, String.toList_ofList]
    | none =>
      cases truthy (request.headers "x-real-ip") with
      | some realIp => simpa using hstrip realIp
      | none => simp [hdirect]

/-- With the limiter and IP limiting on, a request with a peer address is metered by IP exactly
once if and only if it is not one of those that pass unmetered. -/
theorem metered_once_iff {answer : List HitCall → HitCall → Except Error RateLimitResult}
    {digest : String → String} {config : RateLimitConfig} {r : RateLimitArgs Metered}
    {request : Request Metered} {host : String} (henabled : config.rateLimitEnabled = true)
    (hip : resolveBool r.byIp config.rateLimitByIpEnabled = true)
    (hinit : initRateLimiter config (some meter) = .ok request.store)
    (hclient : request.client = some host) (hhost : host ≠ "") :
    ipHits ((r.dependency digest config request).run (record answer) []).2 = 1 ↔
      ¬ Unmetered r config request := by
  have hstore : request.store = some meter := by
    simpa [initRateLimiter, henabled] using hinit.symm
  rw [ipHits_dependency hstore henabled hip, ← truthy_getClientIp_isSome hclient hhost]
  split_ifs with hsome <;> simp [hsome]

/-- A request through a proxy that sends `X-Forwarded-For`. -/
def forwarded (forwardedFor : String) : Request Metered where
  method := "GET"
  routePath := some "/items"
  urlPath := "/items"
  client := some "10.0.0.1"
  headers name := if name = "x-forwarded-for" then some forwardedFor else none
  store := some meter

def proxyConfig : RateLimitConfig := { sampleConfig with rateLimitTrustProxyHeaders := true }

/-- Every hit is admitted. -/
def admitAll (_ : List HitCall) (c : HitCall) : Except Error RateLimitResult :=
  .ok ⟨c.limit, c.windowSeconds, 0, 0, 0, false⟩

theorem metered_once_iff_forwarded :
    ipHits ((RateLimitArgs.dependency {} id proxyConfig (forwarded "10.0.0.7, 10.0.0.1")).run
      (record admitAll) []).2 = 1 := by
  refine (metered_once_iff rfl rfl rfl rfl (by decide : "10.0.0.1" ≠ "")).mpr fun hunmetered => ?_
  have hblank : Blank "10.0.0.7".toList := hunmetered.2
  exact absurd (hblank '1' (by decide)) (by decide)

/-- A single comma as `X-Forwarded-For`: no hit at all. -/
theorem comma_not_metered :
    ipHits ((RateLimitArgs.dependency {} id proxyConfig (forwarded ",")).run (record admitAll)
      []).2 = 0 := by
  decide

end BaseWebService.RateLimit
