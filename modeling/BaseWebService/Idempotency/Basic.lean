import BaseWebService.Library.Pool
import BaseWebService.Logging.Value
import BaseWebService.Redis.Strings

/-!
# The idempotency middleware

`IdempotencyRequestMiddleware` of `core/middlewares/idempotency_request.py`. A write request takes a
lock named after its body, runs the inner application and gives the lock back. The program of a
request names what it calls: Redis, and the inner application, which takes as long as it likes and
answers or raises as it likes.
-/

namespace BaseWebService.Idempotency

open Library Redis Logging

def writeMethods : List String := ["PUT", "POST", "PATCH", "DELETE"]
def idempotencyTtlSeconds : Int := 10 * 60
def idempotencyPrefix : String := "idempotency:body:"

/-- The part of a request that `dispatch` reads; `body` raises when the client has gone. -/
structure Request (ε : Type) where
  method : String
  body : Except ε (List UInt8)

inductive Error (ε : Type) where
  | runtimeError (message : String)
  | raised (e : ε)

/-- What `dispatch` returns: the response of the inner application, or a `JSONResponse`. -/
inductive Answer (ρ : Type) where
  | response (response : ρ)
  | json (statusCode : ℕ) (content : Tree)

/-- `accept` is the server's: it hands over the request to serve. -/
inductive Call where
  | accept
  | callNext
  | set (key value : String) (seconds : Int)
  | delete (key : String)

section world
variable (ρ ε : Type)

def Call.Reply : Call → Type
  | .accept => Request ε
  | .callNext => Except ε ρ
  | .set _ _ _ => Bool
  | .delete _ => Unit

/-- Redis, the request that comes next and what the inner application does next. -/
structure World where
  redis : StringServer
  incoming : Request ε
  outcome : Except ε ρ

abbrev M (α : Type) := Prog Call (Call.Reply ρ ε) (Error ε) α

end world

variable {ρ ε : Type}

namespace World

def exec : (c : Call) → World ρ ε → c.Reply ρ ε × World ρ ε
  | .accept, w => (w.incoming, w)
  | .callNext, w => (w.outcome, w)
  | .set key value seconds, w =>
    let r := w.redis.setNx key value seconds
    (r.1, { w with redis := r.2 })
  | .delete key, w => ((), { w with redis := w.redis.delete key })

/-- Time passes; another request may come in and the inner application may make up its mind. -/
def Passes (w w' : World ρ ε) : Prop :=
  ∃ now, w.redis.now ≤ now ∧ w'.redis = w.redis.advance now

/-- No command moves the clock. -/
@[simp] theorem exec_now (c : Call) (w : World ρ ε) : (exec c w).2.redis.now = w.redis.now := by
  cases c with
  | set key value seconds => exact StringServer.setNx_now value seconds
  | _ => rfl

end World

/-- A middleware on an application whose Redis pool is there or is not. -/
structure IdempotencyRequestMiddleware where
  /-- The SHA-256 digest of a body, in hexadecimal digits. -/
  digest : List UInt8 → String
  redisPool : Bool

namespace IdempotencyRequestMiddleware

variable (app : IdempotencyRequestMiddleware)

def buildKey (requestBody : List UInt8) : String := idempotencyPrefix ++ app.digest requestBody

def getRedisClient : M ρ ε Unit :=
  if app.redisPool then pure () else throw (.runtimeError "Redis not initialized")

def readBody (request : Request ε) : M ρ ε (List UInt8) :=
  match request.body with
  | .ok body => pure body
  | .error e => throw (.raised e)

/-- `await call_next(request)`. -/
def callNext : M ρ ε ρ := do
  match ← (.perform Call.callNext : M ρ ε (Except ε ρ)) with
  | .ok response => pure response
  | .error e => throw (.raised e)

/-- The answer to a request whose body is locked. -/
def conflict : Answer ρ :=
  .json 409 (.mapping () [(.str "success", .scalar (.bool false)),
    (.str "message", .str "Yêu cầu đang được xử lý."), (.str "data", .seq .list () [])])

def dispatch (request : Request ε) : M ρ ε (Answer ρ) := do
  if !writeMethods.contains request.method then
    return .response (← callNext)
  app.getRedisClient
  let requestBody ← readBody request
  if requestBody.isEmpty then
    return .response (← callNext)
  let key := app.buildKey requestBody
  let locked ← (.perform (Call.set key "1" idempotencyTtlSeconds) : M ρ ε Bool)
  if !locked then
    return conflict
  let response ← callNext
  (.perform (Call.delete key) : M ρ ε Unit)
  return .response response

/-- What the server runs for each request. -/
def serve : M ρ ε (Answer ρ) := do
  let request ← (.perform Call.accept : M ρ ε (Request ε))
  app.dispatch request

end IdempotencyRequestMiddleware

end BaseWebService.Idempotency
