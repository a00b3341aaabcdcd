import BaseWebService.Logging.Value
import BaseWebService.Middleware.Asgi

/-!
# The request size limit

`RequestSizeLimitMiddleware` of `core/middlewares/request_size.py`. Its two closures share a count
of the bytes received and a flag for a response that has started: `limited_receive` is what the
filter does after a `receive`, `send_wrapper` what it does before a `send`.
-/

namespace BaseWebService.Middleware

open Library
open Logging (Tree)

/-- What an application raises: `RequestTooLarge`, or something else. -/
inductive Error (ε : Type) where
  | requestTooLarge
  | raised (e : ε)

variable {ε : Type}

/-- The variables of the closures. -/
structure Counters where
  receivedBytes : ℕ
  responseStarted : Bool

/-- A limit, and how `JSONResponse` renders its content. -/
structure RequestSizeLimitMiddleware where
  maxBodyBytes : ℕ
  render : Tree → Bytes

/-- The first Content-Length, where it is a number. -/
def contentLength : List Header → Option Int
  | [] => none
  | (key, value) :: headers =>
    if bytesLower key = bytesOf "content-length" then bytesInt value else contentLength headers

namespace RequestSizeLimitMiddleware

variable (limit : RequestSizeLimitMiddleware)

def tooLargeResponse : List Message :=
  jsonResponse 413 (limit.render (.mapping () [(.str "success", .scalar (.bool false)),
    (.str "status_code", .scalar (.int 413)), (.str "message", .str "Request body is too large"),
    (.str "data", .seq .list () []), (.str "extra", .mapping () [])]))

/-- `limited_receive`, once `receive` has returned or raised. -/
def limitedReceive (message : Except (Error ε) Message) (c : Counters) :
    Except (Error ε) Message × Counters :=
  match message with
  | .error e => (.error e, c)
  | .ok message =>
    if message.type = "http.request" then
      let receivedBytes := c.receivedBytes + message.bodyBytes.length
      if receivedBytes > limit.maxBodyBytes then
        (.error .requestTooLarge, { c with receivedBytes })
      else (.ok message, { c with receivedBytes })
    else (.ok message, c)

/-- `send_wrapper`, before it sends. -/
def sendWrapper (message : Message) (c : Counters) : Counters :=
  if message.type = "http.response.start" then { c with responseStarted := true } else c

/-- What `__call__` hands to the application. -/
def filter : Filter Call (Call.Reply (Error ε)) Counters where
  before
    | .receive, c => c
    | .send message, c => sendWrapper message c
  after
    | .receive, message, c => limit.limitedReceive message c
    | .send _, reply, c => (reply, c)

/-- What `__call__` does once the application has returned or raised. -/
def finish (c : Counters) : Except (Error ε) Unit → AsgiProg (Error ε) Unit
  | .ok () => pure ()
  | .error .requestTooLarge =>
    if !c.responseStarted then sendAll limit.tooLargeResponse else pure ()
  | .error e => throw e

def call (app : Application (Error ε)) : Application (Error ε) where
  Point := Filter.Point Call (Call.Reply (Error ε)) (Error ε) Unit Counters app.Point
  flow := limit.filter.flow limit.finish app.flow
  start scope :=
    if scope.type ≠ "http" then .bare (app.start scope)
    else
      match contentLength scope.headers with
      | some n =>
        if n > limit.maxBodyBytes then .after (sendAll limit.tooLargeResponse)
        else .inside ⟨0, false⟩ (app.start scope)
      | none => .inside ⟨0, false⟩ (app.start scope)

end RequestSizeLimitMiddleware

end BaseWebService.Middleware
