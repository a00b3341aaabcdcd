import BaseWebService.RateLimit.Bag

/-!
# Stacked limits

Several `rate_limit` dependencies on one route share one key, since the key names neither the
limit nor the window. `serveAll_spec` brings a sequential run of requests through them down to
steps of the bag that is stored under that key.
-/

namespace BaseWebService.RateLimit

open Library Redis RedisSlidingWindowRateLimiter

/-- A limit: how many requests, in how many seconds, both positive. -/
structure Limit where
  requests : Int
  windowSeconds : Int
  requests_pos : 0 < requests
  window_pos : 0 < windowSeconds
  deriving DecidableEq, Repr

/-- `rate_limit(config=..., by_ip=True, ip_requests=..., ip_window_seconds=..., by_auth=False)`. -/
def byIpLimit (d : Limit) : RateLimitArgs M where
  byIp := some true
  ipRequests := some d.requests
  ipWindowSeconds := some d.windowSeconds
  byAuth := some false

/-- The backend that `init_rate_limiter` stores. -/
def redisStore (config : RateLimitConfig) : Store M := ⟨hit config⟩

section serve

variable (digest : String → String) (config : RateLimitConfig) (request : Request M)

/-- Run a request through the dependencies in order, up to the first that raises: how many it
passes, and the store it leaves. -/
def serve : List Limit → ZServer → ℕ × ZServer
  | [], s => (0, s)
  | d :: ds, s => match ((byIpLimit d).dependency digest config request).run ZServer.exec s with
    | (.ok _, t) => ((serve ds t).1 + 1, (serve ds t).2)
    | (.error _, t) => (0, t)

/-- A run of requests at the given times: how many dependencies each passes. -/
def serveAll (deps : List Limit) (times : List Int) (s : ZServer) : List (Int × ℕ) × ZServer :=
  times.foldl (fun (past, s) now =>
    let r := serve digest config request deps (s.advance now)
    (past ++ [(now, r.1)], r.2)) ([], s)

end serve

namespace Bag

def serve (now : Int) : List Limit → Bag → ℕ × Bag
  | [], b => (0, b)
  | d :: ds, b => match b.hit d.requests d.windowSeconds now with
    | (true, b') => ((serve now ds b').1 + 1, (serve now ds b').2)
    | (false, b') => (0, b')

def serveAll (deps : List Limit) (times : List Int) (b : Bag) : List (Int × ℕ) × Bag :=
  times.foldl (fun (past, b) now =>
    let r := (b.purge now).serve now deps
    (past ++ [(now, r.1)], r.2)) ([], b)

end Bag

/-! ## The dependencies on a bag -/

section refinement

variable {digest : String → String} {config : RateLimitConfig} {request : Request M} {ip : String}

/-- The key of every IP limit of a route, for one client. -/
def ipKey (digest : String → String) (request : Request M) (ip : String) : String :=
  buildRateLimitKey digest "ip" request ip

/-- A dependency is one call of `hit`, and raises if the call is not admitted. -/
theorem run_dependency (henabled : config.rateLimitEnabled = true)
    (hstore : request.store = some (redisStore config))
    (hclient : truthy (getClientIp request config config.rateLimitTrustProxyHeaders) = some ip)
    (d : Limit) {s : ZServer} {b : Bag} (h : Stored (ipKey digest request ip) s b)
    (hnow : 0 ≤ s.now) :
    ∃ t, Stored (ipKey digest request ip) t (b.hit d.requests d.windowSeconds s.now).2 ∧
      t.now = s.now ∧
      (((byIpLimit d).dependency digest config request).run ZServer.exec s = (.ok (), t) ∧
          (b.hit d.requests d.windowSeconds s.now).1 = true ∨
        (∃ e, ((byIpLimit d).dependency digest config request).run ZServer.exec s =
          (.error e, t)) ∧ (b.hit d.requests d.windowSeconds s.now).1 = false) := by
  obtain ⟨result, t, hrun, hexceeded, htime, ht⟩ :=
    hit_spec config _ s h hnow d.requests_pos d.window_pos
  refine ⟨t, ht, htime, ?_⟩
  have hdependency : (byIpLimit d).dependency digest config request =
      ((hit config (ipKey digest request ip) d.requests d.windowSeconds >>= fun result =>
        if result.exceeded then throw (.rateLimitExceeded "ip" result) else pure ()) >>= fun _ =>
          pure ()) := by
    have hlimit : intOr (some d.requests) config.rateLimitIpRequests = d.requests :=
      if_neg d.requests_pos.ne'
    have hwindow : intOr (some d.windowSeconds) config.rateLimitIpWindowSeconds =
        d.windowSeconds := if_neg d.window_pos.ne'
    simp only [RateLimitArgs.dependency, byIpLimit, henabled, resolveBool, Option.getD_some,
      Option.getD_none, if_true, checkIpLimit, hclient, checkLimit, getRateLimiterStore, hstore,
      hlimit, hwindow]
    rfl
  rw [hdependency]
  have hcheck := Prog.run_bind_ok ZServer.exec hrun fun result =>
    (if result.exceeded then throw (.rateLimitExceeded "ip" result) else pure () : M Unit)
  rw [Prog.run_bind, hcheck, hexceeded]
  cases (b.hit d.requests d.windowSeconds s.now).1 with
  | true => exact Or.inl ⟨rfl, rfl⟩
  | false => exact Or.inr ⟨⟨_, rfl⟩, rfl⟩

/-- Stacked dependencies act on the bag of their common key. -/
theorem serve_spec (henabled : config.rateLimitEnabled = true)
    (hstore : request.store = some (redisStore config))
    (hclient : truthy (getClientIp request config config.rateLimitTrustProxyHeaders) = some ip)
    {deps : List Limit} {s : ZServer} {b : Bag} (h : Stored (ipKey digest request ip) s b)
    (hnow : 0 ≤ s.now) :
    (serve digest config request deps s).1 = (b.serve s.now deps).1 ∧
      (serve digest config request deps s).2.now = s.now ∧
      Stored (ipKey digest request ip) (serve digest config request deps s).2
        (b.serve s.now deps).2 := by
  induction deps generalizing s b with
  | nil => exact ⟨rfl, rfl, h⟩
  | cons d ds ih =>
    obtain ⟨t, ht, htime, hcases⟩ := run_dependency henabled hstore hclient d h hnow
    rcases hcases with ⟨hrun, hpass⟩ | ⟨⟨e, hrun⟩, hreject⟩
    · obtain ⟨hcount, htime', hstored⟩ := ih ht (by omega)
      rw [htime] at hcount hstored htime'
      have hbag : b.serve s.now (d :: ds) =
          (((b.hit d.requests d.windowSeconds s.now).2.serve s.now ds).1 + 1,
            ((b.hit d.requests d.windowSeconds s.now).2.serve s.now ds).2) := by
        rw [Bag.serve, ← Prod.eta (b.hit d.requests d.windowSeconds s.now), hpass]
      simp only [serve, hrun, hbag]
      exact ⟨by rw [hcount], htime', hstored⟩
    · have hbag : b.serve s.now (d :: ds) = (0, (b.hit d.requests d.windowSeconds s.now).2) := by
        rw [Bag.serve, ← Prod.eta (b.hit d.requests d.windowSeconds s.now), hreject]
      simp only [serve, hrun, hbag]
      exact ⟨trivial, htime, ht⟩

/-- Whole runs act on the bag, one request after the other. -/
theorem serveAll_spec (henabled : config.rateLimitEnabled = true)
    (hstore : request.store = some (redisStore config))
    (hclient : truthy (getClientIp request config config.rateLimitTrustProxyHeaders) = some ip)
    {deps : List Limit} {times : List Int} (htimes : ∀ now ∈ times, 0 ≤ now) {s : ZServer}
    {b : Bag} (h : Stored (ipKey digest request ip) s b) :
    (serveAll digest config request deps times s).1 = (b.serveAll deps times).1 ∧
      Stored (ipKey digest request ip) (serveAll digest config request deps times s).2
        (b.serveAll deps times).2 := by
  induction times using List.reverseRecOn with
  | nil => exact ⟨rfl, h⟩
  | append_singleton times now ih =>
    obtain ⟨htrace, hstored⟩ := ih fun now hnow => htimes now (List.mem_append_left _ hnow)
    have hnow : 0 ≤ now := htimes now (by simp)
    obtain ⟨hcount, -, hstored'⟩ :=
      serve_spec henabled hstore hclient (hstored.advance now) hnow
    simp only [serveAll, Bag.serveAll, List.foldl_append, List.foldl_cons, List.foldl_nil] at *
    exact ⟨by rw [htrace, hcount]; rfl, hstored'⟩

end refinement

end BaseWebService.RateLimit
