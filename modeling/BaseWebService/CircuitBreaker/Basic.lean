import BaseWebService.Redis.Hash

/-!
# The Redis circuit breaker

`RedisCircuitBreaker` of `core/infra/circuit_breaker.py`. Every method is a program over the
commands of one hash key, so that it can be run as a whole or interleaved with others.

A Python exception inside a `try` block ends it and reaches the blanket `except Exception`
of the method. Reading a field that is missing gives `None`; the methods print it with
`str` before `_as_int`, and `int("None")` raises.
-/

namespace BaseWebService.CircuitBreaker

open Library Redis

def modeClosed : String := "closed"
def modeOpen : String := "open"
def modeHalfOpen : String := "half_open"

@[simp] theorem modes_ne_empty : modeClosed ≠ "" ∧ modeOpen ≠ "" ∧ modeHalfOpen ≠ "" := by decide

@[simp] theorem modes_differ : modeClosed ≠ modeOpen ∧ modeClosed ≠ modeHalfOpen ∧
    modeOpen ≠ modeClosed ∧ modeOpen ≠ modeHalfOpen ∧
    modeHalfOpen ≠ modeClosed ∧ modeHalfOpen ≠ modeOpen := by decide

/-- Thresholds controlling the circuit-breaker state transitions. -/
structure CircuitBreakerConfig where
  enabled : Bool
  timeoutThreshold : Int
  timeoutWindowSeconds : Int
  openSeconds : Int
  halfOpenSuccessThreshold : Int

/-- The defaults of `CircuitBreakerSetting`. -/
def CircuitBreakerConfig.default : CircuitBreakerConfig where
  enabled := true
  timeoutThreshold := 3
  timeoutWindowSeconds := 60
  openSeconds := 60
  halfOpenSuccessThreshold := 3

structure CircuitBreakerDecision where
  allowed : Bool
  mode : String
  deriving DecidableEq, Repr

/-- The exceptions a method can meet while Redis answers. -/
inductive Error where
  | valueError (text : String)
  | responseError
  deriving DecidableEq, Repr

abbrev M := Prog HashCmd HashCmd.Reply Error

/-- Python's `str` of an `HGET` reply. -/
def str : Option String → String
  | some text => text
  | none => "None"

/-- `redisEnabled` is `RedisCacheClient.is_enabled()`: a pool is bound. -/
structure RedisCircuitBreaker where
  config : CircuitBreakerConfig
  redisEnabled : Bool

namespace RedisCircuitBreaker

variable (b : RedisCircuitBreaker)

def isEnabled : Bool := b.config.enabled && b.redisEnabled

/-- `int(value or 0)`. -/
def asInt (value : Option String) : M Int :=
  match value with
  | none => pure 0
  | some text =>
    if text = "" then pure 0
    else match pyInt text with
      | some n => pure n
      | none => throw (.valueError text)

def stateTtlSeconds : Int :=
  max (max b.config.timeoutWindowSeconds b.config.openSeconds) 1 * 2

def hsetState (mapping : List (String × String)) : M Unit := do
  hset mapping
  expire b.stateTtlSeconds

/-- `failures or self._config.timeout_threshold`. -/
def failuresOrThreshold (failures : Option Int) : Int :=
  match failures with
  | some n => if n = 0 then b.config.timeoutThreshold else n
  | none => b.config.timeoutThreshold

def openState (nowMs : Int) (failures : Option Int) : M Unit :=
  b.hsetState
    [("mode", modeOpen),
     ("failure_count", pyStr (b.failuresOrThreshold failures)),
     ("last_timeout_ms", pyStr nowMs),
     ("open_until_ms", pyStr (nowMs + b.config.openSeconds * 1000)),
     ("half_open_successes", pyStr (0 : Int)),
     ("half_open_requests", pyStr (0 : Int))]

/-- `await self.redis.hincrby(name=self._key, key=field, amount=1)`. -/
def increment (field : String) : M Int := do
  match ← hincrby field 1 with
  | some n => pure n
  | none => throw .responseError

/-- The part of `allow_request` after the two early returns: every HALF_OPEN request. -/
def probe (mode : String) : M CircuitBreakerDecision := do
  let requestNumber ← increment "half_open_requests"
  pure { allowed := requestNumber % 2 == 1, mode }

/-- The `try` block of `allow_request`. -/
def allowRequestTry : M CircuitBreakerDecision := do
  let cachedMode ← hget "mode"
  let mode := match cachedMode with
    | some text => text
    | none => modeClosed
  if mode = modeClosed then
    pure { allowed := true, mode }
  else if mode = modeOpen then do
    let cachedOpenUntilMs ← hget "open_until_ms"
    let openUntilMs ← asInt (some (str cachedOpenUntilMs))
    let nowMs ← hashTime
    if nowMs < openUntilMs then
      pure { allowed := false, mode }
    else do
      b.hsetState
        [("mode", modeHalfOpen),
         ("half_open_successes", pyStr (0 : Int)),
         ("half_open_requests", pyStr (0 : Int))]
      probe modeHalfOpen
  else probe mode

def allowRequest : M CircuitBreakerDecision :=
  if !b.isEnabled then pure { allowed := true, mode := modeClosed }
  else tryCatch b.allowRequestTry fun _ => pure { allowed := true, mode := modeClosed }

/-- `await self.redis.hget(self._key, "mode") or MODE_CLOSED`. -/
def modeOrClosed (cachedMode : Option String) : String :=
  match cachedMode with
  | some text => if text = "" then modeClosed else text
  | none => modeClosed

def recordFailure : M Unit :=
  if !b.isEnabled then pure ()
  else
    tryCatch
      (do
        let mode := modeOrClosed (← hget "mode")
        let nowMs ← hashTime
        if mode = modeHalfOpen then
          b.openState nowMs none
        else do
          let cachedLastTimeoutMs ← hget "last_timeout_ms"
          let lastTimeoutMs ← asInt (some (str cachedLastTimeoutMs))
          let cachedFailureCount ← hget "failure_count"
          let failureCount ← asInt (some (str cachedFailureCount))
          let failures :=
            if nowMs - lastTimeoutMs > b.config.timeoutWindowSeconds * 1000 then 1
            else failureCount + 1
          if failures ≥ b.config.timeoutThreshold then
            b.openState nowMs (some failures)
          else
            b.hsetState
              [("mode", modeClosed),
               ("failure_count", pyStr failures),
               ("last_timeout_ms", pyStr nowMs)])
      fun _ => pure ()

def recordTimeout : M Unit := b.recordFailure

/-- The write at the end of `record_success`. -/
def closeState : M Unit :=
  b.hsetState
    [("mode", modeClosed),
     ("failure_count", pyStr (0 : Int)),
     ("last_timeout_ms", pyStr (0 : Int)),
     ("half_open_successes", pyStr (0 : Int)),
     ("half_open_requests", pyStr (0 : Int))]

def recordSuccess : M Unit :=
  if !b.isEnabled then pure ()
  else
    tryCatch
      (do
        let mode := modeOrClosed (← hget "mode")
        if mode = modeHalfOpen then do
          let successes ← increment "half_open_successes"
          if successes < b.config.halfOpenSuccessThreshold then pure ()
          else b.closeState
        else b.closeState)
      fun _ => pure ()

end RedisCircuitBreaker

end BaseWebService.CircuitBreaker
