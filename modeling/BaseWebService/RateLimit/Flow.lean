import BaseWebService.Library.Pool
import BaseWebService.RateLimit.Basic

/-!
# The flowchart of `hit`

`hit` seen as a flowchart whose points carry the local variables that are still needed. Every
later result about interleaved calls reasons about points; `hit_follows` says that they are the
program's own.
-/

namespace BaseWebService.RateLimit

open Library Redis RedisSlidingWindowRateLimiter

/-- Where a call of `hit` stands: attempt `attempt`, with `left` more to follow. -/
inductive Point where
  | clock (attempt left : ℕ)
  | trim (attempt left : ℕ) (nowMs : Int)
  | watch (attempt left : ℕ) (nowMs : Int)
  | card (attempt left : ℕ) (nowMs : Int) (version : ℕ)
  | oldest (attempt left : ℕ) (nowMs : Int) (version count : ℕ)
  | commit (attempt left : ℕ) (nowMs : Int) (version count : ℕ) (oldestScore : Option Int)
  | exceeded (nowMs : Int) (count : ℕ) (oldestScore : Option Int)
  | admitted (nowMs : Int) (count : ℕ) (oldestScore : Option Int)
  | done (result : RateLimitResult)
  | failed (e : Error)

/-- The start of the loop with `left` attempts to go. -/
def Point.enter (attempt : ℕ) : (left : ℕ) → Point
  | 0 => .failed (.runtimeError "Unreachable code in RedisSlidingWindowRateLimiter.hit")
  | left + 1 => .clock attempt left

section flow

variable (config : RateLimitConfig) (key : String) (limit windowSeconds : Int)

/-- What follows a `WatchError` in attempt `attempt`. -/
def Point.retry (attempt left : ℕ) : Point :=
  if ((attempt + 1 : ℕ) : Int) ≥ config.rateLimitWatchRetries then .failed .watchError
  else .enter (attempt + 1) left

/-- The transaction that admits a request. -/
def admission (nowMs : Int) : List Queued :=
  [.zadd key nowMs, .expire key (windowTtlSeconds windowSeconds)]

def exceededResult (nowMs : Int) (count : ℕ) (oldestScore : Option Int) (now : Int) :
    RateLimitResult where
  limit := limit
  windowSeconds := windowSeconds
  retryAfterSeconds := redisRetryAfterSeconds oldestScore nowMs (windowSeconds * 1000)
  remaining := max (limit - count) 0
  resetAt := now / 1000 + redisResetAfterSeconds oldestScore nowMs (windowSeconds * 1000)
  exceeded := true

def admittedResult (nowMs : Int) (count : ℕ) (oldestScore : Option Int) (now : Int) :
    RateLimitResult where
  limit := limit
  windowSeconds := windowSeconds
  retryAfterSeconds := 0
  remaining := max (limit - (count + 1)) 0
  resetAt := now / 1000 +
    redisResetAfterSeconds (some (oldestScore.getD nowMs)) nowMs (windowSeconds * 1000)
  exceeded := false

def hitFlow : Flow ZCmd ZCmd.Reply Error RateLimitResult Point
  | .clock attempt left => .call .time fun nowMs => .trim attempt left nowMs
  | .trim attempt left nowMs =>
    .call (.zremrangebyscore key 0 (nowMs - windowSeconds * 1000)) fun _ =>
      .watch attempt left nowMs
  | .watch attempt left nowMs => .call (.watch key) fun version => .card attempt left nowMs version
  | .card attempt left nowMs version =>
    .call (.zcard key) fun (count : ℕ) => .oldest attempt left nowMs version count
  | .oldest attempt left nowMs version count =>
    .call (.zrange key 0 0) fun entries =>
      if (count : Int) ≥ limit then .exceeded nowMs count (redisOldestScore entries)
      else .commit attempt left nowMs version count (redisOldestScore entries)
  | .commit attempt left nowMs version count oldestScore =>
    .call (.execute key version (admission key windowSeconds nowMs)) fun (applied : Bool) =>
      if applied then .admitted nowMs count oldestScore else .retry config attempt left
  | .exceeded nowMs count oldestScore =>
    .call .time fun now => .done (exceededResult limit windowSeconds nowMs count oldestScore now)
  | .admitted nowMs count oldestScore =>
    .call .time fun now => .done (admittedResult limit windowSeconds nowMs count oldestScore now)
  | .done result => .ret result
  | .failed e => .raise e

/-- The loop does what the flowchart does from the start of an attempt. -/
theorem hitLoop_follows (attempt left : ℕ) :
    Follows (hitFlow config key limit windowSeconds)
      (hitLoop config key limit windowSeconds attempt left) (.enter attempt left) := by
  induction left generalizing attempt with
  | zero => rfl
  | succ left ih =>
    refine ⟨_, rfl, fun (nowMs : Int) => ⟨_, rfl, fun _ => ⟨_, rfl, fun (version : ℕ) =>
      ⟨_, rfl, fun (count : ℕ) => ⟨_, rfl, fun (entries : List Member) => ?_⟩⟩⟩⟩⟩
    change Follows _ (Prog.handle (ite _ _ _) _) (ite _ _ _)
    by_cases hfull : (count : Int) ≥ limit
    · rw [if_pos hfull, if_pos hfull]
      exact ⟨_, rfl, fun _ => rfl⟩
    · rw [if_neg hfull, if_neg hfull]
      refine ⟨_, rfl, fun (applied : Bool) => ?_⟩
      cases applied with
      | true => exact ⟨_, rfl, fun _ => rfl⟩
      | false =>
        change Follows _ (ite _ _ _) (Point.retry config attempt left)
        unfold Point.retry
        by_cases hlast : ((attempt + 1 : ℕ) : Int) ≥ config.rateLimitWatchRetries
        · rw [if_pos hlast, if_pos hlast]
          rfl
        · rw [if_neg hlast, if_neg hlast]
          exact ih (attempt + 1)

/-- Where a call starts: a configuration that is not valid fails at once. -/
def Point.entry : Point :=
  if limit ≤ 0 then .failed (.valueError "rate limit must be greater than 0")
  else if windowSeconds ≤ 0 then
    .failed (.valueError "rate limit window_seconds must be greater than 0")
  else .enter 0 (max config.rateLimitWatchRetries 1).toNat

theorem hit_follows :
    Follows (hitFlow config key limit windowSeconds) (hit config key limit windowSeconds)
      (.entry config limit windowSeconds) := by
  unfold hit validateWindowConfig Point.entry
  split_ifs
  · rfl
  · rfl
  · exact hitLoop_follows config key limit windowSeconds 0 _

end flow

end BaseWebService.RateLimit
