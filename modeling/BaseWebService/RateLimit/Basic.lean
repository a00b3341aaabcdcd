import BaseWebService.Library.PyText
import BaseWebService.Redis.SortedSet

/-!
# The sliding-window rate limiter

`core/rate_limiter/rate_limit.py`. `RedisSlidingWindowRateLimiter.hit` is a program over
sorted-set commands. The dependency built by `rate_limit` is written for any monad, so
that it can be run on that limiter or on one that only records its calls.
-/

namespace BaseWebService.RateLimit

open Library Redis

structure RateLimitConfig where
  rateLimitEnabled : Bool
  rateLimitByIpEnabled : Bool
  rateLimitIpRequests : Int
  rateLimitIpWindowSeconds : Int
  rateLimitByAuthEnabled : Bool
  rateLimitAuthRequests : Int
  rateLimitAuthWindowSeconds : Int
  rateLimitTrustProxyHeaders : Bool
  trustedProxyIps : List String
  rateLimitWatchRetries : Int

/-- Settings with the limiter on and five attempts for a call. -/
def sampleConfig : RateLimitConfig where
  rateLimitEnabled := true
  rateLimitByIpEnabled := true
  rateLimitIpRequests := 120
  rateLimitIpWindowSeconds := 60
  rateLimitByAuthEnabled := false
  rateLimitAuthRequests := 120
  rateLimitAuthWindowSeconds := 60
  rateLimitTrustProxyHeaders := false
  trustedProxyIps := []
  rateLimitWatchRetries := 5

structure RateLimitResult where
  limit : Int
  windowSeconds : Int
  retryAfterSeconds : Int
  remaining : Int
  resetAt : Int
  exceeded : Bool
  deriving DecidableEq, Repr

inductive Error where
  | valueError (message : String)
  | runtimeError (message : String)
  | watchError
  | rateLimitExceeded (scope : String) (result : RateLimitResult)
  deriving DecidableEq, Repr

/-- Programs of the limiter's Redis backend. -/
abbrev M := Prog ZCmd ZCmd.Reply Error

/-! ## The backend -/

def validateWindowConfig (limit windowSeconds : Int) : M Unit :=
  if limit ≤ 0 then throw (.valueError "rate limit must be greater than 0")
  else if windowSeconds ≤ 0 then
    throw (.valueError "rate limit window_seconds must be greater than 0")
  else pure ()

def windowTtlSeconds (windowSeconds : Int) : Int := max (windowSeconds * 2) 1

/-- Scores are whole milliseconds, which `int(float(score))` gives back unchanged. -/
def redisOldestScore (entries : List Member) : Option Int := entries.head?.map (·.2)

/-- `math.ceil(n / 1000)`. -/
def ceilSeconds (n : Int) : Int := -(-n / 1000)

def redisRetryAfterSeconds (oldestScore : Option Int) (nowMs windowMs : Int) : Int :=
  match oldestScore with
  | none => 1
  | some score => max (ceilSeconds ((score + windowMs) - nowMs)) 1

def redisResetAfterSeconds (oldestScore : Option Int) (nowMs windowMs : Int) : Int :=
  match oldestScore with
  | none => 0
  | some score => max (ceilSeconds ((score + windowMs) - nowMs)) 0

/-- `reset_at` is `int(time.time() + reset_after_seconds)`. -/
def buildSlidingWindowResult (limit windowSeconds retryAfterSeconds requestCount
    resetAfterSeconds : Int) (exceeded : Bool) : M RateLimitResult := do
  let now ← time
  pure
    { limit
      windowSeconds
      retryAfterSeconds
      remaining := max (limit - requestCount) 0
      resetAt := now / 1000 + resetAfterSeconds
      exceeded }

namespace RedisSlidingWindowRateLimiter

/-- The body of the `try` block of `hit`. -/
def attemptHit (key : String) (limit windowSeconds nowMs : Int) : M RateLimitResult := do
  let windowMs := windowSeconds * 1000
  let version ← watch key
  let requestCount ← zcard key
  let oldestScore := redisOldestScore (← zrange key 0 0)
  if (requestCount : Int) ≥ limit then
    buildSlidingWindowResult limit windowSeconds
      (redisRetryAfterSeconds oldestScore nowMs windowMs) requestCount
      (redisResetAfterSeconds oldestScore nowMs windowMs) true
  else
    let applied ← execute key version
      [.zadd key nowMs, .expire key (windowTtlSeconds windowSeconds)]
    if !applied then throw .watchError
    buildSlidingWindowResult limit windowSeconds 0 (requestCount + 1)
      (redisResetAfterSeconds (some (oldestScore.getD nowMs)) nowMs windowMs) false

/-- The `for` loop, with `left` attempts to go. The sleep between two attempts only lets
time pass. -/
def hitLoop (config : RateLimitConfig) (key : String) (limit windowSeconds : Int) :
    (attempt left : ℕ) → M RateLimitResult
  | _, 0 => throw (.runtimeError "Unreachable code in RedisSlidingWindowRateLimiter.hit")
  | attempt, left + 1 => do
    let nowMs ← time
    zremrangebyscore key 0 (nowMs - windowSeconds * 1000)
    tryCatch (attemptHit key limit windowSeconds nowMs) fun e =>
      if e = .watchError then
        if ((attempt + 1 : ℕ) : Int) ≥ config.rateLimitWatchRetries then throw .watchError
        else hitLoop config key limit windowSeconds (attempt + 1) left
      else throw e

def hit (config : RateLimitConfig) (key : String) (limit windowSeconds : Int) :
    M RateLimitResult := do
  validateWindowConfig limit windowSeconds
  hitLoop config key limit windowSeconds 0 (max config.rateLimitWatchRetries 1).toNat

end RedisSlidingWindowRateLimiter

/-! ## The dependency -/

/-- What the dependency uses of a rate limiter. -/
structure Store (m : Type → Type) where
  hit : (key : String) → (limit windowSeconds : Int) → m RateLimitResult

/-- What the limiter reads of a request; `headers` is asked by lower-case names, `client` is
the peer's host, and `store` is `app.state.rate_limiter_store`. -/
structure Request (m : Type → Type) where
  method : String
  routePath : Option String
  urlPath : String
  client : Option String
  headers : String → Option String
  store : Option (Store m)

section dependency

variable {m : Type → Type} [Monad m] [MonadExceptOf Error m]

/-- `init_rate_limiter`, as the store it leaves in `app.state`. -/
def initRateLimiter (config : RateLimitConfig) (redisClient : Option (Store m)) :
    Except Error (Option (Store m)) :=
  if !config.rateLimitEnabled then .ok none
  else match redisClient with
    | none => .error (.runtimeError "Redis client is required when rate limit is enabled")
    | some store => .ok (some store)

def getRateLimiterStore (request : Request m) : m (Store m) :=
  match request.store with
  | none => throw (.runtimeError "Rate limiter not initialized")
  | some store => pure store

def resolveBool (value : Option Bool) (default : Bool) : Bool := value.getD default

/-- Python's `value or default`. -/
def intOr (value : Option Int) (default : Int) : Int :=
  match value with
  | some n => if n = 0 then default else n
  | none => default

def rateLimitRequestScope (request : Request m) : String :=
  let routePath := match request.routePath with
    | some path => if path = "" then request.urlPath else path
    | none => request.urlPath
  request.method ++ ":" ++ routePath

/-- `text.split(",", maxsplit=1)[0].strip()`. -/
def firstElement (text : String) : String :=
  pyStrip (String.ofList (text.toList.takeWhile (· != ',')))

/-- The header, unless it is missing or empty. -/
def truthy (value : Option String) : Option String := value.filter (· ≠ "")

/-- Whether the peer is a proxy whose headers are believed. -/
def trustsPeer (request : Request m) (config : RateLimitConfig) (trustProxyHeaders : Bool) :
    Bool :=
  trustProxyHeaders && (config.trustedProxyIps.isEmpty || match request.client with
    | none => false
    | some host => config.trustedProxyIps.contains host)

def getClientIp (request : Request m) (config : RateLimitConfig) (trustProxyHeaders : Bool) :
    Option String :=
  if trustsPeer request config trustProxyHeaders then
    match truthy (request.headers "x-forwarded-for") with
    | some forwardedFor => some (firstElement forwardedFor)
    | none => match truthy (request.headers "x-real-ip") with
      | some realIp => some (pyStrip realIp)
      | none => request.client
  else request.client

/-- `digest` is `sha256(identifier).hexdigest()[:16]`. -/
def buildRateLimitKey (digest : String → String) (scope : String) (request : Request m)
    (identifier : String) : String :=
  "rate_limit:" ++ scope ++ ":" ++ rateLimitRequestScope request ++ ":" ++ digest identifier

/-- `_check_ip_limit` and `_check_auth_limit` once the identifier is known. -/
def checkLimit (digest : String → String) (scope : String) (request : Request m)
    (identifier : String) (limit windowSeconds : Int) : m Unit := do
  let store ← getRateLimiterStore request
  let key := buildRateLimitKey digest scope request identifier
  let result ← store.hit key limit windowSeconds
  if result.exceeded then throw (.rateLimitExceeded scope result)

def checkIpLimit (digest : String → String) (request : Request m) (config : RateLimitConfig)
    (limit windowSeconds : Int) (trustProxyHeaders : Bool) : m Unit :=
  match truthy (getClientIp request config trustProxyHeaders) with
  | none => pure ()
  | some ipIdentifier => checkLimit digest "ip" request ipIdentifier limit windowSeconds

def checkAuthLimit (digest : String → String) (request : Request m) (authIdentifier : String)
    (limit windowSeconds : Int) : m Unit :=
  checkLimit digest "auth" request authIdentifier limit windowSeconds

/-- The arguments of `rate_limit`. -/
structure RateLimitArgs (m : Type → Type) where
  byIp : Option Bool := none
  ipRequests : Option Int := none
  ipWindowSeconds : Option Int := none
  byAuth : Option Bool := none
  authIdentifierGetter : Option (Request m → Option String) := none
  authRequests : Option Int := none
  authWindowSeconds : Option Int := none
  trustProxyHeaders : Option Bool := none

/-- The `dependency` that `rate_limit` returns. -/
def RateLimitArgs.dependency (r : RateLimitArgs m) (digest : String → String)
    (config : RateLimitConfig) (request : Request m) : m Unit := do
  if config.rateLimitEnabled then
    if resolveBool r.byIp config.rateLimitByIpEnabled then
      checkIpLimit digest request config (intOr r.ipRequests config.rateLimitIpRequests)
        (intOr r.ipWindowSeconds config.rateLimitIpWindowSeconds)
        (resolveBool r.trustProxyHeaders config.rateLimitTrustProxyHeaders)
    if resolveBool r.byAuth config.rateLimitByAuthEnabled then
      match truthy (r.authIdentifierGetter.bind fun getter => getter request) with
      | none => pure ()
      | some identifier =>
        checkAuthLimit digest request identifier
          (intOr r.authRequests config.rateLimitAuthRequests)
          (intOr r.authWindowSeconds config.rateLimitAuthWindowSeconds)

end dependency

end BaseWebService.RateLimit
