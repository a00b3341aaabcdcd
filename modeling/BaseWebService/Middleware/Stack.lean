import BaseWebService.Middleware.RequestSize

/-!
# The stack of middlewares

`get_app` of `app/api/application.py` adds the size limit first, so it is the innermost of four:
CORS around the request log around the trusted hosts around the limit. The request log reads the
body of a write request by itself, before anything it wraps.
-/

namespace BaseWebService.Middleware

open Library AsgiEvent

variable {ε : Type}

def writeMethods : List String := ["PUT", "POST", "PATCH", "DELETE"]

/-! ## The middlewares -/

/-- What a middleware does with a scope and the body that it has read. -/
structure Continuation (ε : Type) where
  Point : Type
  flow : AsgiFlow ε Point
  start : Scope → Option Bytes → Point

structure LogRequestMiddleware (ε : Type) where
  /-- `isinstance(e, Exception)`. -/
  isException : ε → Bool
  /-- What `dispatch` and its base class do from `call_next` on. -/
  callNext : Application ε → Continuation ε

inductive LogRequestMiddleware.Point (ε P Q : Type) where
  | bare (p : P)
  | reading (scope : Scope) (chunks : List Bytes)
  | next (q : Q)
  | failed (e : ε)

namespace LogRequestMiddleware

variable (log : LogRequestMiddleware ε) (app : Application ε)

/-- `await request.body()` on the next message: it is read to the last chunk, and what it raises is
dropped. -/
def readBody (scope : Scope) (chunks : List Bytes) :
    Except ε Message → Point ε app.Point (log.callNext app).Point
  | .ok message =>
    if message.type = "http.request" then
      let chunks := chunks ++ [message.bodyBytes]
      if message.moreBody.getD false then .reading scope chunks
      else .next ((log.callNext app).start scope (some chunks.flatten))
    else if message.type = "http.disconnect" then .next ((log.callNext app).start scope none)
    else .reading scope chunks
  | .error e =>
    if log.isException e then .next ((log.callNext app).start scope none) else .failed e

def call : Application ε where
  Point := Point ε app.Point (log.callNext app).Point
  flow
    | .bare p => (app.flow p).map .bare
    | .reading scope chunks => .call .receive (log.readBody app scope chunks)
    | .next q => ((log.callNext app).flow q).map .next
    | .failed e => .raise e
  start scope :=
    if scope.type ≠ "http" then .bare (app.start scope)
    else if writeMethods.contains scope.method then .reading scope []
    else .next ((log.callNext app).start scope none)

end LogRequestMiddleware

/-- CORS answers a preflight request by itself and else adds headers to the response. -/
structure CORSMiddleware where
  preflightResponse : Scope → List Message
  simpleResponse : Scope → Message → Message

inductive CORSMiddleware.Point (ε P : Type) where
  | bare (p : P)
  | simple (scope : Scope) (p : P)
  | preflight (prog : AsgiProg ε Unit)

def Scope.hasHeader (scope : Scope) (name : String) : Bool :=
  scope.headers.any fun header => bytesLower header.1 = bytesOf name

namespace CORSMiddleware

variable (cors : CORSMiddleware) (app : Application ε)

def call : Application ε where
  Point := Point ε app.Point
  flow
    | .bare p => (app.flow p).map .bare
    | .simple scope p => match app.flow p with
      | .ret a => .ret a
      | .raise e => .raise e
      | .call .receive next => .call .receive fun r => .simple scope (next r)
      | .call (.send message) next =>
        .call (.send (cors.simpleResponse scope message)) fun r => .simple scope (next r)
    | .preflight prog => prog.flow.map .preflight
  start scope :=
    if scope.type ≠ "http" then .bare (app.start scope)
    else if !scope.hasHeader "origin" then .bare (app.start scope)
    else if scope.method = "OPTIONS" ∧ scope.hasHeader "access-control-request-method" then
      .preflight (sendAll (cors.preflightResponse scope))
    else .simple scope (app.start scope)

end CORSMiddleware

/-- The response to a host that is not trusted, if it is not. -/
structure TrustedHostMiddleware where
  refuse : Scope → Option (List Message)

inductive TrustedHostMiddleware.Point (ε P : Type) where
  | bare (p : P)
  | refused (prog : AsgiProg ε Unit)

def TrustedHostMiddleware.call (hosts : TrustedHostMiddleware) (app : Application ε) :
    Application ε where
  Point := Point ε app.Point
  flow
    | .bare p => (app.flow p).map .bare
    | .refused prog => prog.flow.map .refused
  start scope :=
    match hosts.refuse scope with
    | some response => .refused (sendAll response)
    | none => .bare (app.start scope)

structure Middlewares (ε : Type) where
  requestSizeLimit : RequestSizeLimitMiddleware
  trustedHost : TrustedHostMiddleware
  logRequest : LogRequestMiddleware (Error ε)
  cors : CORSMiddleware

/-- The application of `get_app`: each middleware is added outside the ones before. The committed
module does not import `setup_opentelemetry`, `setup_prometheus` and two exception classes, so
`get_app` itself raises a `NameError`; this is the application it would make with them, without the
layers that OpenTelemetry and Prometheus may add. -/
def getApp (middlewares : Middlewares ε) (router : Application (Error ε)) :
    Application (Error ε) :=
  [middlewares.requestSizeLimit.call, middlewares.trustedHost.call, middlewares.logRequest.call,
    middlewares.cors.call].foldl (fun app middleware => middleware app) router

/-! ## What is read from the server -/

/-- The chunks of a body as a server sends them: all but the last announce another one. -/
structure Chunks where
  init : List Bytes
  last : Bytes
  complete : Bool

def Chunks.messages (chunks : Chunks) : List Message :=
  chunks.init.map (.request · true) ++ [.request chunks.last (!chunks.complete)]

/-- The replies to the receives of a dialogue. -/
def received : List (AsgiEvent ε) → List (Except ε Message)
  | [] => []
  | ⟨.receive, reply⟩ :: es => reply :: received es
  | ⟨.send _, _⟩ :: es => received es

/-- In every dialogue in which the server sends the chunks, no more than `maxBytes` and one chunk is
read: at most `maxBytes` have been read whenever a chunk arrives. -/
def BoundedReads (app : Application ε) (scope : Scope) (chunks : Chunks) (maxBytes : ℕ) : Prop :=
  ∀ es m p, app.Says scope (es ++ [⟨.receive, .ok m⟩]) p →
    received (es ++ [⟨.receive, .ok m⟩]) <+: chunks.messages.map .ok → bodyBytes es ≤ maxBytes

section received
variable {es es' : List (AsgiEvent ε)}

theorem received_append : received (es ++ es') = received es ++ received es' := by
  induction es with
  | nil => rfl
  | cons e es ih =>
    rcases e with ⟨_ | m, r⟩
    · exact congrArg (r :: ·) ih
    · exact ih

/-- The size of the body that a reply brings. -/
def replySize : Except ε Message → ℕ
  | .ok m => if m.IsRequest then m.bodyBytes.length else 0
  | .error _ => 0

theorem bodyBytes_eq_received : bodyBytes es = ((received es).map replySize).sum := by
  induction es with
  | nil => rfl
  | cons e es ih =>
    rcases e with ⟨_ | m, _ | m'⟩
    · simpa [received, bodySize, replySize] using ih
    · simpa [received, bodySize, replySize] using ih
    · simpa [received, bodySize] using ih
    · simpa [received, bodySize] using ih

end received

/-- Messages that are received one after the other. -/
def receives (ms : List Message) : List (AsgiEvent ε) := ms.map fun m => ⟨.receive, .ok m⟩

@[simp] theorem received_receives (ms : List Message) :
    received (receives ms : List (AsgiEvent ε)) = ms.map .ok := by
  induction ms with
  | nil => rfl
  | cons m ms ih => exact congrArg (Except.ok m :: ·) ih

theorem sum_replySize_request (bodies : List Bytes) (more : Bool) :
    (((bodies.map (Message.request · more)).map (Except.ok (ε := ε))).map replySize).sum =
      (bodies.map List.length).sum := by
  induction bodies with
  | nil => rfl
  | cons body bodies ih =>
    simp only [List.map_cons, List.sum_cons, ih]
    rfl

/-- The request log receives every chunk of the body of a write request. -/
theorem LogRequestMiddleware.reads (log : LogRequestMiddleware ε) (app : Application ε)
    (scope : Scope) (read bodies : List Bytes) :
    Dialogue (log.call app).flow (.reading scope read)
      (receives (bodies.map (Message.request · true))) (.reading scope (read ++ bodies)) := by
  induction bodies generalizing read with
  | nil =>
    rw [List.append_nil]
    exact .nil
  | cons body bodies ih =>
    refine .cons rfl ?_
    have hrest := ih (read ++ [body])
    rw [List.append_assoc] at hrest
    exact hrest

theorem LogRequestMiddleware.says_reads (log : LogRequestMiddleware ε) (app : Application ε)
    {scope : Scope} (hhttp : scope.type = "http")
    (hwrite : writeMethods.contains scope.method = true) (chunks : Chunks) :
    (log.call app).Says scope (receives chunks.messages)
      (log.readBody app scope chunks.init (.ok (.request chunks.last (!chunks.complete)))) := by
  have hstart : (log.call app).start scope = .reading scope [] := by
    simp only [call, ne_eq, hhttp, not_true_eq_false, hwrite, if_false, if_true]
  unfold Application.Says
  rw [hstart, Chunks.messages, receives, List.map_append]
  exact (log.reads app scope [] chunks.init).append (.cons rfl .nil)

/-- CORS hands every message on to what is inside it. -/
theorem CORSMiddleware.receives_simple (cors : CORSMiddleware) {app : Application ε} {scope : Scope}
    {p q : app.Point} {ms : List Message} (h : Dialogue app.flow p (receives ms) q) :
    Dialogue (cors.call app).flow (.simple scope p) (receives ms) (.simple scope q) := by
  induction ms generalizing p with
  | nil =>
    cases h
    exact .nil
  | cons m ms ih =>
    cases h with
    | @cons _ _ _ next _ _ hp h =>
      have hflow : (cors.call app).flow (.simple scope p) =
          .call .receive fun r => .simple scope (next r) := by
        simp only [call, hp]
      exact .cons hflow (ih h)

theorem CORSMiddleware.receives_bare (cors : CORSMiddleware) {app : Application ε}
    {p q : app.Point} {es : List (AsgiEvent ε)} (h : Dialogue app.flow p es q) :
    Dialogue (cors.call app).flow (.bare p) es (.bare q) := by
  have hflow : ∀ p, (cors.call app).flow (.bare p) = (app.flow p).map .bare := fun _ => rfl
  exact (Dialogue.map_iff hflow).mpr ⟨q, rfl, h⟩

/-- What a write request is given by what CORS wraps, it is given by CORS. -/
theorem CORSMiddleware.exists_says (cors : CORSMiddleware) {app : Application ε} {scope : Scope}
    (hmethod : scope.method ≠ "OPTIONS") {q : app.Point} {ms : List Message}
    (h : app.Says scope (receives ms) q) : ∃ x, (cors.call app).Says scope (receives ms) x := by
  unfold Application.Says at *
  simp only [call, hmethod, false_and, if_false]
  split_ifs
  · exact ⟨_, cors.receives_bare h⟩
  · exact ⟨_, cors.receives_bare h⟩
  · exact ⟨_, cors.receives_simple h⟩

/-- A server that sends a body leads the whole stack to have read all of it but the last chunk, when
the last chunk comes. -/
theorem exists_reads (middlewares : Middlewares ε) (router : Application (Error ε)) {scope : Scope}
    (hhttp : scope.type = "http") (hwrite : writeMethods.contains scope.method = true)
    (chunks : Chunks) :
    ∃ x, (getApp middlewares router).Says scope (receives chunks.messages) x := by
  have hmethod : scope.method ≠ "OPTIONS" := by
    intro hoptions
    rw [hoptions] at hwrite
    exact absurd hwrite (by decide)
  exact middlewares.cors.exists_says hmethod
    (middlewares.logRequest.says_reads _ hhttp hwrite chunks)

theorem sum_le_of_boundedReads {middlewares : Middlewares ε} {router : Application (Error ε)}
    {scope : Scope} (hhttp : scope.type = "http")
    (hwrite : writeMethods.contains scope.method = true) {chunks : Chunks} {maxBytes : ℕ}
    (h : BoundedReads (getApp middlewares router) scope chunks maxBytes) :
    (chunks.init.map List.length).sum ≤ maxBytes := by
  obtain ⟨x, hx⟩ := exists_reads middlewares router hhttp hwrite chunks
  rw [Chunks.messages, receives, List.map_append] at hx
  have hread := h (receives (chunks.init.map (.request · true))) _ x hx ?_
  · rwa [bodyBytes_eq_received, received_receives, sum_replySize_request] at hread
  · rw [received_append, received_receives, Chunks.messages, List.map_append]
    exact List.prefix_rfl

/-- The stack reads no more than the limit and one chunk if and only if all chunks but the last are
within the limit. -/
theorem boundedReads_iff (middlewares : Middlewares ε) (router : Application (Error ε))
    {scope : Scope} (hhttp : scope.type = "http")
    (hwrite : writeMethods.contains scope.method = true) (chunks : Chunks) :
    BoundedReads (getApp middlewares router) scope chunks
      middlewares.requestSizeLimit.maxBodyBytes ↔
      (chunks.init.map List.length).sum ≤ middlewares.requestSizeLimit.maxBodyBytes := by
  constructor
  · exact sum_le_of_boundedReads hhttp hwrite
  · intro hle es m p _ hprefix
    refine le_trans ?_ hle
    -- What has been read when a chunk arrives are chunks before the last one.
    rw [received_append, Chunks.messages, List.map_append] at hprefix
    have hinit : received es <+: (chunks.init.map (Message.request · true)).map .ok := by
      rcases List.prefix_concat_iff.mp hprefix with heq | hshorter
      · exact (List.append_inj' heq rfl).1 ▸ List.prefix_rfl
      · exact (List.prefix_append ..).trans hshorter
    obtain ⟨rest, hrest⟩ := hinit
    have hsum := congrArg (fun replies => (replies.map replySize).sum) hrest
    simp only [List.map_append, List.sum_append, sum_replySize_request,
      ← bodyBytes_eq_received] at hsum
    omega

/-- The default limit, and nothing that stands in the way of a request. -/
def plainMiddlewares : Middlewares Unit where
  requestSizeLimit := ⟨2 * 1024 * 1024, fun _ => []⟩
  trustedHost := ⟨fun _ => none⟩
  logRequest := {
    isException := fun _ => true
    callNext := fun app => ⟨app.Point, app.flow, fun scope _ => app.start scope⟩ }
  cors := ⟨fun _ => [], fun _ message => message⟩

/-- A router whose handlers read nothing. -/
def readNothing : Application (Error Unit) := ⟨Unit, fun _ => .ret (), fun _ => ()⟩

def postScope : Scope := ⟨"http", "POST", []⟩

def twoMiB : Bytes := List.replicate (2 * 1024 * 1024) 0

theorem length_twoMiB : twoMiB.length = plainMiddlewares.requestSizeLimit.maxBodyBytes :=
  List.length_replicate

/-- Of a body three times as large as the limit everything is read. -/
theorem three_chunks_unbounded : ¬ BoundedReads (getApp plainMiddlewares readNothing) postScope
    ⟨[twoMiB, twoMiB], twoMiB, true⟩ plainMiddlewares.requestSizeLimit.maxBodyBytes := by
  intro h
  have hsum := sum_le_of_boundedReads rfl (by decide) h
  simp only [List.map_cons, List.map_nil, List.sum_cons, List.sum_nil, length_twoMiB] at hsum
  exact absurd hsum (by decide)

/-- A body of two chunks, of which the first is as large as the limit, is read within the bound. -/
theorem boundedReads_iff_two_chunks : BoundedReads (getApp plainMiddlewares readNothing) postScope
    ⟨[twoMiB], twoMiB, true⟩ plainMiddlewares.requestSizeLimit.maxBodyBytes := by
  refine (boundedReads_iff plainMiddlewares readNothing rfl (by decide) _).mpr ?_
  simp only [List.map_cons, List.map_nil, List.sum_cons, List.sum_nil, length_twoMiB]
  exact le_rfl

end BaseWebService.Middleware
