import Mathlib.Data.Rat.Defs
import BaseWebService.Library.PyDict
import BaseWebService.CircuitBreaker.Run
import BaseWebService.Logging.RequestLog
import BaseWebService.Logging.SafeLogging

/-!
# The HTTP connector

`BaseAsyncHttpConnector.request` of `core/infra/connectors/base_client.py`. It asks the breaker,
makes at most one HTTP call and reports back. What the call meets is chosen by the downstream
service, so it is a reply like any other; `httpx` and `yarl` stay outside. Two of its log lines are
made of data and stand outside every `try`, so making one may raise out of `request`.
-/

namespace BaseWebService.Connector

open Library Redis CircuitBreaker
open Logging (Tree strEntry)
open Logging.SafeLogging (truncate)

structure ConnectorConfig where
  baseUrl : Option String
  timeoutS : ℚ
  serviceName : Option String
  circuitBreaker : CircuitBreakerConfig

/-- A request body: `json` is a `dict` or a `list`, `content` any other value. -/
inductive Body (V : Type) where
  | json (value : V)
  | content (value : V)

/-- The arguments of `request`. -/
structure Request (V : Type) where
  method : String
  pathOrUrl : String
  body : Option (Body V)
  data : Option (List (String × String))
  headers : Option (List (String × String))
  params : Option (List (String × V))
  timeoutS : Option ℚ

/-- What is handed to `httpx`. -/
structure RequestKwargs (V : Type) where
  method : String
  url : String
  headers : List (String × String)
  params : Option (List (String × V))
  timeout : ℚ
  json : Option V
  content : Option V
  data : Option (List (String × String))

/-- `text` is decoded when it is read, in the charset the response names. -/
structure HttpResponse where
  statusCode : Int
  text : Except String String

/-- How an HTTP call ends. `otherException` is any exception that is no
`httpx.TimeoutException`: a refused connection, a broken one, a protocol error. -/
inductive HttpOutcome where
  | response (response : HttpResponse)
  | poolTimeout
  | timeoutException
  | otherException (text : String)

/-- An HTTP call: how it ends, how long it takes, and whether Redis drops the key of the breaker
meanwhile, if it is due. -/
structure Attempt where
  outcome : HttpOutcome
  durationMs : ℕ
  lapses : Bool

structure CustomResponse where
  response : Option HttpResponse
  executeTimeMs : ℕ
  sourceService : String
  isTimeout : Bool := false
  isCircuitOpen : Bool := false

/-- The exceptions that leave `request`. -/
inductive RequestError where
  | invalidUrl (text : String)
  | breaker (error : CircuitBreaker.Error)
  | logging (text : String)
  | http (text : String)

inductive Cmd (V : Type) where
  | allowRequest
  | recordTimeout
  | recordFailure
  | recordSuccess
  | send (kwargs : RequestKwargs V)

abbrev Cmd.Reply {V : Type} : Cmd V → Type
  | .allowRequest => Except CircuitBreaker.Error CircuitBreakerDecision
  | .recordTimeout | .recordFailure | .recordSuccess => Except CircuitBreaker.Error Unit
  | .send _ => Attempt

abbrev M (V : Type) := Prog (Cmd V) Cmd.Reply RequestError

/-! ## The log lines -/

/-- What the log lines are made with, besides the redactor's library. -/
structure LogRuntime (V : Type) extends Logging.Runtime where
  /-- The value as the redactor meets it. One that contains itself is unfolded to beyond the
  recursion limit. -/
  tree : V → Tree
  /-- Whether redacting a value stays within the recursion limit. -/
  fits : Tree → Bool
  fits_str : ∀ text, fits (.str text) = true
  /-- Python's `str`, or the text of what it raises. -/
  str : Tree → Except String String
  /-- `logger.info` with the values it formats, or the text of what it raises. -/
  info : List Tree → Except String Unit

namespace LogRuntime

variable {V : Type} (rt : LogRuntime V)

def redactSensitiveData (value : Tree) : Except String Tree :=
  if rt.fits value then .ok (Logging.SafeLogging.redactSensitiveData rt.toRuntime value)
  else .error "maximum recursion depth exceeded"

/-- `safe_log_body`: a text that is not JSON, or cannot be redacted as JSON, stays a text. -/
def safeLogBody (value : Tree) : Except String Tree :=
  match value with
  | .str text =>
    match rt.loads text with
    | some parsed => tryCatch (rt.redactSensitiveData parsed) fun _ => rt.redactSensitiveData value
    | none => rt.redactSensitiveData value
  | _ => rt.redactSensitiveData value

def formatLogBody (value : Tree) : Except String Tree := do
  match ← rt.safeLogBody value with
  | .scalar .none => return .scalar .none
  | logged =>
    let loggedStr ← rt.str logged
    return if 500 < loggedStr.length then .str (truncate 500 loggedStr) else logged

/-- Within the recursion limit it is the body the redactor of outbound calls makes. -/
theorem safeLogBody_of_fits (hfits : ∀ t, rt.fits t = true) (value : Tree) :
    rt.safeLogBody value = .ok (Logging.SafeLogging.safeLogBody rt.toRuntime value) := by
  have hredact : ∀ t, rt.redactSensitiveData t =
      .ok (Logging.SafeLogging.redactAndTruncate rt.toRuntime 500 t) := fun t => by
    rw [redactSensitiveData, if_pos (hfits t), Logging.SafeLogging.redactSensitiveData]
  cases value with
  | str text =>
    simp only [safeLogBody, Logging.SafeLogging.safeLogBody]
    cases rt.loads text with
    | none => exact hredact _
    | some parsed =>
      dsimp only
      rw [hredact]
      rfl
  | _ => exact hredact _

/-- The text of a response can be redacted, whatever JSON it is. -/
theorem safeLogBody_str (text : String) : ∃ logged, rt.safeLogBody (.str text) = .ok logged := by
  have hplain : rt.redactSensitiveData (.str text) =
      .ok (Logging.SafeLogging.redactSensitiveData rt.toRuntime (.str text)) :=
    if_pos (rt.fits_str text)
  simp only [safeLogBody]
  cases rt.loads text with
  | none => exact ⟨_, hplain⟩
  | some parsed =>
    dsimp only
    cases rt.redactSensitiveData parsed with
    | ok logged => exact ⟨logged, rfl⟩
    | error e => exact ⟨_, hplain⟩

end LogRuntime

/-- `joinUrl base path` is `str(URL(base) / path)`, or the error it raises. -/
structure BaseAsyncHttpConnector (V : Type) where
  config : ConnectorConfig
  defaultHeaders : List (String × String)
  sourceService : String
  joinUrl : Option String → String → Except String String
  redisEnabled : Bool
  logging : LogRuntime V

namespace BaseAsyncHttpConnector

variable {V : Type} (c : BaseAsyncHttpConnector V)

def circuitBreaker : RedisCircuitBreaker := ⟨c.config.circuitBreaker, c.redisEnabled⟩

/-- `str.lstrip("/")`. -/
def lstripSlash (path : String) : String := String.ofList (path.toList.dropWhile (· == '/'))

def makeUrl (pathOrUrl : String) : Except String String :=
  if "http://".toList.isPrefixOf pathOrUrl.toList || "https://".toList.isPrefixOf pathOrUrl.toList
  then .ok pathOrUrl
  else c.joinUrl c.config.baseUrl (lstripSlash pathOrUrl)

/-- `timeout_s or self._config.timeout_s`. -/
def effectiveTimeout (timeoutS : Option ℚ) : ℚ :=
  match timeoutS with
  | some t => if t = 0 then c.config.timeoutS else t
  | none => c.config.timeoutS

def requestHeaders (r : Request V) : List (String × String) :=
  pyDict (c.defaultHeaders ++ r.headers.getD [])

def requestKwargs (r : Request V) (url : String) : RequestKwargs V where
  method := r.method.toUpper
  url := url
  headers := c.requestHeaders r
  params := r.params
  timeout := c.effectiveTimeout r.timeoutS
  json := match r.body with
    | some (.json value) => some value
    | _ => none
  content := match r.body with
    | some (.content value) => some value
    | _ => none
  data := r.data.filter (!·.isEmpty)

/-- The line before the HTTP call. -/
def logRequest (r : Request V) : Except String Unit := do
  let rt := c.logging
  let headers ← rt.redactSensitiveData (.mapping () ((c.requestHeaders r).map strEntry))
  let params ← rt.redactSensitiveData (match r.params with
    | some params => .mapping () (params.map fun e => (.str e.1, rt.tree e.2))
    | none => .scalar .none)
  let body ← rt.formatLogBody (match r.body with
    | some (.json value) | some (.content value) => rt.tree value
    | none => .scalar .none)
  let data ← rt.formatLogBody (match r.data with
    | some data => .mapping () (data.map strEntry)
    | none => .scalar .none)
  rt.info [headers, params, body, data]

/-- The line after it. -/
def logResponse (response : HttpResponse) : Except String Unit := do
  let text ← response.text
  let body ← c.logging.formatLogBody (.str text)
  c.logging.info [body]

/-- The line of a response raises where its text cannot be decoded, and otherwise nowhere but in
`str` and the logger. -/
theorem logResponse_ok {response : HttpResponse} {text : String} (htext : response.text = .ok text)
    (hstr : ∀ t, ∃ written, c.logging.str t = .ok written)
    (hinfo : ∀ values, c.logging.info values = .ok ()) : c.logResponse response = .ok () := by
  obtain ⟨body, hbody⟩ : ∃ body, c.logging.formatLogBody (.str text) = .ok body := by
    obtain ⟨logged, hlogged⟩ := c.logging.safeLogBody_str text
    obtain ⟨written, hwritten⟩ := hstr logged
    rw [LogRuntime.formatLogBody, hlogged]
    by_cases hnone : logged = .scalar .none
    · exact ⟨_, by rw [hnone]; rfl⟩
    · simp only [bind, Except.bind, hwritten]
      exact ⟨_, rfl⟩
  simp [logResponse, htext, hbody, bind, Except.bind, hinfo]

/-- Raise what the breaker raises. -/
def reported {α : Type} : Except CircuitBreaker.Error α → M V α
  | .ok a => pure a
  | .error e => throw (.breaker e)

/-- Raise what a log line raises. -/
def logged : Except String Unit → M V Unit
  | .ok () => pure ()
  | .error text => throw (.logging text)

def request (r : Request V) : M V CustomResponse :=
  match c.makeUrl r.pathOrUrl with
  | .error text => throw (.invalidUrl text)
  | .ok url => do
    let kwargs := c.requestKwargs r url
    let decision ← reported (← Prog.perform (C := Cmd V) .allowRequest)
    if !decision.allowed then
      pure { response := none, executeTimeMs := 0, sourceService := c.sourceService,
             isCircuitOpen := true }
    else do
      logged (c.logRequest r)
      let attempt : Attempt ← Prog.perform (C := Cmd V) (.send kwargs)
      match attempt.outcome with
      | .poolTimeout | .timeoutException => do
        reported (← Prog.perform (C := Cmd V) .recordTimeout)
        pure { response := none, executeTimeMs := attempt.durationMs,
               sourceService := c.sourceService, isTimeout := true }
      | .otherException text => throw (.http text)
      | .response response => do
        logged (c.logResponse response)
        let result : CustomResponse :=
          { response := some response, executeTimeMs := attempt.durationMs,
            sourceService := c.sourceService }
        if response.statusCode ≥ 500 ∨ response.statusCode = 429 then
          reported (← Prog.perform (C := Cmd V) .recordFailure)
        else
          reported (← Prog.perform (C := Cmd V) .recordSuccess)
        pure result

end BaseAsyncHttpConnector

end BaseWebService.Connector
