import Mathlib.Data.Finset.Insert
import BaseWebService.Library.Discipline
import BaseWebService.Middleware.Extractors

/-!
# Who logs a request

`LogRequestMiddleware` of `core/middlewares/log_request.py` as the tasks of an event loop run it.
Any number of the middlewares may stand around an application; they share the flag in
`request.state`, and the first to find it unset logs the call, in a task of its own unless the
application has raised. What each of them builds its response and its document from is `LogRuntime`;
what is added here is `_log_api_call` and its two callers, the tasks they make, and
`_background_tasks`.

A task that has been made waits in `scheduled` until the loop takes it up, its callbacks wait for
the loop again, and inserting a document may take any time, fail, or fail after the document has
been stored.
-/

namespace BaseWebService.Middleware.LogOnce

open Library
open Logging (Tree Allocator LogField)

/-- An exception, with what `traceback.format_exc()` shows of it, or the cancellation of a task. -/
inductive Failure where
  | exception (text : String)
  | cancelled

/-- What `_do_log_api_call` builds, if it builds a document, from `request.state.traceback`. -/
abbrev Record := Option String → Option Tree

/-- A task of `create_task`, by the number of tasks made before it. -/
structure Job where
  task : ℕ
  request : ℕ
  record : Record

inductive Command where
  | newRequest
  | await
  | readChunks
  | setTraceback (request : ℕ) (text : String)
  | getLogged (request : ℕ)
  | setLogged (request : ℕ)
  | createTask (request : ℕ) (record : Record)
  | addBackground (task : ℕ)
  | addDoneCallback (task : ℕ)
  | takeTask
  | doLogApiCall (request : ℕ) (record : Record)
  | finishTask (task : ℕ)

abbrev Command.Reply : Command → Type
  | .newRequest => ℕ
  | .await => Except Failure Unit
  | .readChunks => Bool
  | .getLogged _ => Bool
  | .createTask _ _ => ℕ
  | .takeTask => Job
  | .doLogApiCall _ _ => Except Failure Unit
  | _ => Unit

abbrev M := Prog Command Command.Reply Failure
abbrev LogEvent := Event Command Command.Reply

/-- The tracebacks that requests have, the requests that have the flag, the tasks that were made and
have not begun, the module's set `_background_tasks`, the tasks that have its `discard` for a
callback, and the documents with the requests they are of. -/
structure LogStore where
  requests : ℕ := 0
  tracebacks : ℕ → Option String := fun _ => none
  logged : Finset ℕ := ∅
  tasks : ℕ := 0
  scheduled : List Job := []
  background : Finset ℕ := ∅
  callbacks : Finset ℕ := ∅
  documents : List (ℕ × Tree) := []

namespace LogStore

def insertOne (s : LogStore) (request : ℕ) (document : Tree) : LogStore :=
  { s with documents := s.documents ++ [(request, document)] }

/-- A new task, which has not begun. -/
def schedule (s : LogStore) (request : ℕ) (record : Record) : LogStore :=
  { s with tasks := s.tasks + 1, scheduled := s.scheduled ++ [⟨s.tasks, request, record⟩] }

section schedule
variable (s : LogStore) (request : ℕ) (record : Record)

@[simp] theorem schedule_logged : (s.schedule request record).logged = s.logged := rfl
@[simp] theorem schedule_tasks : (s.schedule request record).tasks = s.tasks + 1 := rfl
@[simp] theorem schedule_background : (s.schedule request record).background = s.background := rfl
@[simp] theorem schedule_documents : (s.schedule request record).documents = s.documents := rfl

end schedule

/-- What an awaited command does in the end. -/
inductive Ends (s : LogStore) : (c : Command) → c.Reply → LogStore → Prop where
  | await {r : Except Failure Unit} : Ends s .await r s
  | readChunks {cancelled : Bool} : Ends s .readChunks cancelled s
  | takeTask {before after : List Job} {job : Job} : s.scheduled = before ++ job :: after →
      Ends s .takeTask job { s with scheduled := before ++ after }
  | inserted {request : ℕ} {record : Record} {document : Tree} {r : Except Failure Unit} :
      record (s.tracebacks request) = some document →
      Ends s (.doLogApiCall request record) r (s.insertOne request document)
  | notInserted {request : ℕ} {record : Record} {e : Failure} :
      Ends s (.doLogApiCall request record) (.error e) s
  | finishTask {task : ℕ} : Ends s (.finishTask task) ()
      { s with background := if task ∈ s.callbacks then s.background.erase task else s.background }

inductive Answer (s : LogStore) : (c : Command) → c.Reply → LogStore → Prop where
  | ends {c : Command} {r : c.Reply} {t : LogStore} : Ends s c r t → Answer s c r t
  | newRequest : Answer s .newRequest s.requests { s with requests := s.requests + 1 }
  | setTraceback {request : ℕ} {text : String} : Answer s (.setTraceback request text) ()
      { s with tracebacks := Function.update s.tracebacks request (some text) }
  | getLogged {request : ℕ} : Answer s (.getLogged request) (decide (request ∈ s.logged)) s
  | setLogged {request : ℕ} :
      Answer s (.setLogged request) () { s with logged := insert request s.logged }
  | createTask {request : ℕ} {record : Record} :
      Answer s (.createTask request record) s.tasks (s.schedule request record)
  | addBackground {task : ℕ} :
      Answer s (.addBackground task) () { s with background := insert task s.background }
  | addDoneCallback {task : ℕ} :
      Answer s (.addDoneCallback task) () { s with callbacks := insert task s.callbacks }

/-- What may take its time; the loop takes a task up as soon as there is one. -/
inductive Suspends (s : LogStore) : Command → Prop where
  | await : Suspends s .await
  | readChunks : Suspends s .readChunks
  | takeTask : s.scheduled = [] → Suspends s .takeTask
  | doLogApiCall {request : ℕ} {record : Record} : Suspends s (.doLogApiCall request record)
  | finishTask {task : ℕ} : Suspends s (.finishTask task)

end LogStore

def logKernel : Kernel Command Command.Reply LogStore where
  answer _ c s r t := s.Answer c r t
  suspend _ c s t := s.Suspends c ∧ t = s
  resume _ c s r t := s.Ends c r t

def ask (c : Command) : M c.Reply := Prog.perform c

def orRaise {α : Type} (text : String) : Option α → M α
  | some a => .ret a
  | none => .raise (.exception text)

/-! ## The middleware -/

/-- A middleware around a request. `call` is what is known of the request before it is served,
`text` what is shown of the exceptions that the middleware itself raises. -/
structure Layer where
  rt : LogRuntime
  numbers : Numbers
  stores : CallStores
  alloc : LogField → Allocator
  allocator : Allocator
  received : Option Bytes
  requestPartner : Option Tree
  systemPartner : Option Tree
  call : ApiCall
  text : String

namespace Layer

/-- The request, when its body has been read. -/
def request (layer : Layer) : HttpRequest := layer.call.request.afterBody layer.received

/-- `getattr(request.state, name, None) or default`. -/
def orElse (value : Option Tree) (default : Tree) : Tree :=
  match value with
  | some value => if truthy value then value else default
  | none => default

def getRequestPartner (layer : Layer) : Tree :=
  orElse layer.requestPartner (orElse layer.systemPartner (.str "Unknown"))

/-- The partner that a JSON response names in its `extra`; whatever is raised on the way there is
swallowed. -/
def responsePartner (layer : Layer) (response : Response) : Tree :=
  if response.isJson then
    match (layer.rt.decodeUtf8 response.content).bind layer.rt.loads with
    | some (.mapping _ entries) =>
      match pyGet entries (.str "extra") with
      | some (.mapping _ extra) =>
        orElse (pyGet extra (.str "request_partner")) layer.getRequestPartner
      | _ => layer.getRequestPartner
    | _ => layer.getRequestPartner
  else layer.getRequestPartner

/-- What `_do_log_api_call` builds. -/
def document (layer : Layer) (partner : Tree) (response : Response) : Record := fun traceback =>
  layer.rt.doLogApiCall layer.numbers layer.stores
    { layer.call with requestPartner := partner, request := layer.request, traceback }
    (.response response)

end Layer

/-- Failures are logged and go no further; a cancellation is no `Exception`. -/
def logApiCall (request : ℕ) (record : Record) : M Unit := do
  match ← ask (.doLogApiCall request record) with
  | .error .cancelled => throw .cancelled
  | _ => return ()

def logApiCallOnce (request : ℕ) (record : Record) : M Unit := do
  if ← ask (.getLogged request) then return ()
  else
    ask (.setLogged request)
    logApiCall request record

def logApiCallOnceInBackground (request : ℕ) (record : Record) : M Unit := do
  if ← ask (.getLogged request) then return ()
  else
    ask (.setLogged request)
    let task ← ask (.createTask request record)
    ask (.addBackground task)
    ask (.addDoneCallback task)

/-- The wait for `request.body()`, whose exceptions are dropped; the bytes are the layer's. -/
def readBody (layer : Layer) : M Unit := do
  if writeMethods.contains layer.call.request.method then
    match ← ask .await with
    | .error .cancelled => throw .cancelled
    | _ => return ()

/-- The waits for the chunks of a JSON response, at which the task may be cancelled. A stream that
breaks off is left out, as it is in `LogRuntime.dispatch`. -/
def readResponse (inner : Response) : M Unit := do
  if inner.isJson then
    if ← ask .readChunks then throw .cancelled

/-- `dispatch`, with the commands that `LogRuntime.dispatch` leaves out. -/
def dispatch (layer : Layer) (request : ℕ) (callNext : M Response) : M Response := do
  readBody layer
  let _ ← orRaise layer.text (layer.rt.serializeRequest layer.alloc layer.request)
  match ← callNext.attempt with
  | .error .cancelled => throw .cancelled
  | .error (.exception traceback) =>
    ask (.setTraceback request traceback)
    let response := layer.rt.buildErrorResponse
    let _ ← orRaise layer.text (layer.rt.serializeResponse layer.allocator response)
    logApiCallOnce request (layer.document layer.getRequestPartner response)
    return response
  | .ok inner =>
    readResponse inner
    let response ← orRaise layer.text (layer.rt.outgoing layer.request inner)
    let _ ← orRaise layer.text (layer.rt.serializeResponse layer.allocator response)
    logApiCallOnceInBackground request
      (layer.document (layer.responsePartner inner) response)
    return response

/-- Middlewares around an application, the outermost first. -/
def stack (layers : List Layer) (app : M Response) (request : ℕ) : M Response :=
  layers.foldr (fun layer inner => dispatch layer request inner) app

def serve (layers : List Layer) (app : ℕ → M Response) : M (ℕ × Response) := do
  let request ← ask .newRequest
  return (request, ← stack layers (app request) request)

/-- A task of `create_task`: whichever way it ends, its callbacks are called. -/
def runTask : M Unit := do
  let job ← ask .takeTask
  Prog.tryFinally (logApiCall job.request job.record) (ask (.finishTask job.task))

/-- What takes time, or notes a traceback. -/
def IsPlain (request : ℕ) (c : Command) : Prop :=
  c = .await ∨ c = .readChunks ∨ ∃ text, c = .setTraceback request text

/-- An application has nothing to do with the log, but its handlers may note a traceback. -/
def IsApp (app : ℕ → M Response) : Prop := ∀ request, (app request).Only (IsPlain request)

/-- A request comes in, or the loop takes up a task. -/
inductive Call where
  | serve (layers : List Layer) (app : ℕ → M Response) (isApp : IsApp app)
  | runTask

abbrev Call.Value : Call → Type
  | .serve _ _ _ => ℕ × Response
  | .runTask => Unit

def Call.body : (call : Call) → M call.Value
  | .serve layers app _ => LogOnce.serve layers app
  | .runTask => LogOnce.runTask

abbrev LogLoop := Loop Command Command.Reply Failure LogStore Call.Value
abbrev LogLabel := Loop.Label Command Command.Reply Failure Call.Value

abbrev LogStep : LogLoop → LogLabel → LogLoop → Prop := Loop.Step logKernel Call.body

/-! ## The responses -/

/-- How a program can end, whatever it is replied. -/
def CanEnd {α : Type} : M α → Except Failure α → Prop
  | .ret a, r => r = .ok a
  | .raise e, r => r = .error e
  | .call _ k, r => ∃ reply, CanEnd (k reply) r

/-- A response that an application can give, or none where it can raise. -/
def Gives (app : M Response) : Option Response → Prop
  | some response => CanEnd app (.ok response)
  | none => ∃ text, CanEnd app (.error (.exception text))

/-- `dispatch` without the log. -/
def Layer.respond (layer : Layer) (inner : Option Response) : Option Response :=
  layer.rt.dispatch layer.alloc layer.allocator layer.call.request layer.received inner

/-- What the middlewares make of a response, without the log. -/
def responseOf (layers : List Layer) (inner : Option Response) : Option Response :=
  layers.foldr Layer.respond inner

/-- What comes out is made of what the application gives, or does not depend on it. -/
def Makes (layers : List Layer) (app : M Response) (out : Option Response) : Prop :=
  (∃ inner, Gives app inner ∧ responseOf layers inner = out) ∨
    ∀ inner, responseOf layers inner = out

/-- The middlewares end as they would without the log. -/
def Unaltered (layers : List Layer) (app : M Response) : Except Failure Response → Prop
  | .ok response => Makes layers app (some response)
  | .error (.exception _) => Makes layers app none
  | .error .cancelled => True

section respond
variable {layer : Layer} {layers : List Layer} {app : M Response} {inner out : Option Response}

theorem Makes.cons (h : Makes layers app inner) (hout : layer.respond inner = out) :
    Makes (layer :: layers) app out := by
  rcases h with ⟨given, hgives, hmade⟩ | hall
  · refine .inl ⟨given, hgives, ?_⟩
    rw [← hout, ← hmade]
    rfl
  · refine .inr fun given => ?_
    rw [← hout, ← hall given]
    rfl

theorem respond_of_unserialized
    (h : layer.rt.serializeRequest layer.alloc layer.request = none) (inner : Option Response) :
    layer.respond inner = none := by
  simp only [Layer.respond, LogRuntime.dispatch]
  rw [show layer.call.request.afterBody layer.received = layer.request from rfl, h]
  rfl

theorem respond_none {record : Tree}
    (h : layer.rt.serializeRequest layer.alloc layer.request = some record) :
    layer.respond none = (layer.rt.serializeResponse layer.allocator
      layer.rt.buildErrorResponse).map fun _ => layer.rt.buildErrorResponse := by
  simp only [Layer.respond, LogRuntime.dispatch]
  rw [show layer.call.request.afterBody layer.received = layer.request from rfl, h]
  cases layer.rt.serializeResponse layer.allocator layer.rt.buildErrorResponse <;> rfl

theorem respond_some {record : Tree} {response : Response}
    (h : layer.rt.serializeRequest layer.alloc layer.request = some record) :
    layer.respond (some response) = (layer.rt.outgoing layer.request response).bind fun returned =>
      (layer.rt.serializeResponse layer.allocator returned).map fun _ => returned := by
  simp only [Layer.respond, LogRuntime.dispatch]
  rw [show layer.call.request.afterBody layer.received = layer.request from rfl, h]
  simp only [Option.bind_eq_bind, Option.bind_some, Option.pure_def, Option.map_eq_bind]
  rfl

end respond

/-! ## The discipline -/

/-- What a task knows: whether it serves a request, and what of the flag; and whether it is one that
logs, and whether it has. -/
inductive Place where
  | outside
  | serving (request : ℕ)
  | unlogged (request : ℕ)
  | claimed (request : ℕ)
  | created (request task : ℕ)
  | added (request task : ℕ)
  | settled (request : ℕ)
  | working (task request : ℕ)
  | worked (task : ℕ)
  deriving DecidableEq

def discipline : Discipline Command Command.Reply Place where
  allows
    | .outside, .newRequest | .outside, .takeTask => True
    | .serving _, .await | .settled _, .await => True
    | .serving _, .readChunks | .settled _, .readChunks => True
    | .serving request, .setTraceback request' _ | .settled request, .setTraceback request' _
    | .serving request, .getLogged request' | .settled request, .getLogged request'
    | .unlogged request, .setLogged request' | .claimed request, .doLogApiCall request' _
    | .claimed request, .createTask request' _ | .working _ request, .doLogApiCall request' _ =>
      request' = request
    | .created _ task, .addBackground task' | .added _ task, .addDoneCallback task'
    | .worked task, .finishTask task' => task' = task
    | _, _ => False
  next
    | _, .newRequest, request => .serving request
    | _, .takeTask, job => .working job.task job.request
    | _, .getLogged request, logged => if logged then .settled request else .unlogged request
    | _, .setLogged request, _ => .claimed request
    | _, .createTask request _, task => .created request task
    | .created request _, .addBackground task, _ => .added request task
    | .added request _, .addDoneCallback _, _ => .settled request
    | .claimed request, .doLogApiCall _ _, _ => .settled request
    | .working task _, .doLogApiCall _ _, _ => .worked task
    | .worked _, .finishTask _, _ => .outside
    | p, _, _ => p

/-- The task serves the request, and is not about to log it. -/
def Serves (request : ℕ) (p : Place) : Prop := p = .serving request ∨ p = .settled request

/-- A request that was answered has the flag, and its response is what it would be without. -/
def EndsWith : (call : Call) → Except Failure call.Value → Place → Prop
  | .serve layers app _, .ok (request, response), p =>
    (layers ≠ [] → p = .settled request) ∧ Serves request p ∧
      Unaltered layers (app request) (.ok response)
  | .serve layers app _, .error e, p =>
    ∃ request, Serves request p ∧ Unaltered layers (app request) (.error e)
  | .runTask, _, p => p = .outside

section obeys
variable {request : ℕ} {p : Place} {record : Record}

theorem Serves.stays (hp : Serves request p) {c : Command} (hc : IsPlain request c) :
    discipline.allows p c ∧ ∀ r, discipline.next p c r = p := by
  rcases hc with rfl | rfl | ⟨text, rfl⟩ <;> rcases hp with rfl | rfl <;>
    exact ⟨by trivial, fun _ => rfl⟩

theorem logApiCall_obeys {q : Place} (hallows : discipline.allows p (.doLogApiCall request record))
    (hnext : ∀ r, discipline.next p (.doLogApiCall request record) r = q) :
    Obeys discipline (fun r q' => q' = q ∧ ∀ e, r = .error e → e = .cancelled) p
      (logApiCall request record) := by
  refine ⟨hallows, fun r => ?_⟩
  rw [hnext r]
  match r with
  | .ok _ => exact ⟨rfl, nofun⟩
  | .error (.exception _) => exact ⟨rfl, nofun⟩
  | .error .cancelled => exact ⟨rfl, fun e he => by cases he; rfl⟩

theorem logApiCallOnce_obeys (hp : Serves request p) :
    Obeys discipline (fun r q => q = .settled request ∧ ∀ e, r = .error e → e = .cancelled) p
      (logApiCallOnce request record) := by
  refine ⟨by rcases hp with rfl | rfl <;> rfl, fun logged => ?_⟩
  have hnext : discipline.next p (.getLogged request) logged =
      if logged then .settled request else .unlogged request := by
    rcases hp with rfl | rfl <;> rfl
  rw [hnext]
  cases logged with
  | true => exact ⟨rfl, nofun⟩
  | false => exact ⟨rfl, fun _ => logApiCall_obeys rfl fun _ => rfl⟩

theorem logApiCallOnceInBackground_obeys (hp : Serves request p) :
    Obeys discipline (fun r q => q = .settled request ∧ ∀ e, r = .error e → e = .cancelled) p
      (logApiCallOnceInBackground request record) := by
  refine ⟨by rcases hp with rfl | rfl <;> rfl, fun logged => ?_⟩
  have hnext : discipline.next p (.getLogged request) logged =
      if logged then .settled request else .unlogged request := by
    rcases hp with rfl | rfl <;> rfl
  rw [hnext]
  cases logged with
  | true => exact ⟨rfl, nofun⟩
  | false => exact ⟨rfl, fun _ => ⟨rfl, fun task => ⟨rfl, fun _ => ⟨rfl, fun _ => ⟨rfl, nofun⟩⟩⟩⟩⟩

theorem readBody_obeys (layer : Layer) (hp : Serves request p) :
    Obeys discipline (fun r q => q = p ∧ ∀ e, r = .error e → e = .cancelled) p
      (readBody layer) := by
  unfold readBody
  split
  · refine ⟨(hp.stays (.inl rfl)).1, fun r => ?_⟩
    rw [(hp.stays (.inl rfl)).2 r]
    match r with
    | .ok _ => exact ⟨rfl, nofun⟩
    | .error (.exception _) => exact ⟨rfl, nofun⟩
    | .error .cancelled => exact ⟨rfl, fun e he => by cases he; rfl⟩
  · exact ⟨rfl, nofun⟩

theorem readResponse_obeys (inner : Response) (hp : Serves request p) :
    Obeys discipline (fun r q => q = p ∧ ∀ e, r = .error e → e = .cancelled) p
      (readResponse inner) := by
  unfold readResponse
  split
  · refine ⟨(hp.stays (.inr (.inl rfl))).1, fun cancelled => ?_⟩
    rw [(hp.stays (.inr (.inl rfl))).2 cancelled]
    cases cancelled with
    | true => exact ⟨rfl, fun e he => by cases he; rfl⟩
    | false => exact ⟨rfl, nofun⟩
  · exact ⟨rfl, nofun⟩

/-- A middleware that was answered by the next has the flag set, whoever has set it. -/
theorem dispatch_obeys {layer : Layer} {layers : List Layer} {app callNext : M Response}
    (hnext : ∀ p, Serves request p →
      Obeys discipline (fun r q => Serves request q ∧ Unaltered layers app r) p callNext)
    (hp : Serves request p) :
    Obeys discipline (fun r q => ((∃ response, r = .ok response) → q = .settled request) ∧
        Serves request q ∧ Unaltered (layer :: layers) app r) p
      (dispatch layer request callNext) := by
  refine (readBody_obeys layer hp).bind (fun _ q h => ?_) fun e q h => ?_
  case refine_2 =>
    obtain ⟨rfl, he⟩ := h
    obtain rfl := he e rfl
    exact ⟨nofun, hp, trivial⟩
  obtain ⟨rfl, -⟩ := h
  cases hrequest : layer.rt.serializeRequest layer.alloc layer.request with
  | none =>
    exact ⟨nofun, hp, .inr fun inner => respond_of_unserialized hrequest _⟩
  | some record =>
    simp only [orRaise, Prog.ret_bind]
    refine (hnext q hp).attempt.bind (fun ended q h => ?_) fun e q h => ?_
    case refine_2 =>
      obtain ⟨_, hr, -⟩ := h
      cases hr
    obtain ⟨r, ⟨⟩, hq, hmade⟩ := h
    match ended, hmade with
    | .error .cancelled, _ => exact ⟨nofun, hq, trivial⟩
    | .error (.exception traceback), hmade =>
      have hout := respond_none hrequest
      have hstays := hq.stays (.inr (.inr ⟨traceback, rfl⟩))
      refine ⟨hstays.1, fun r => ?_⟩
      rw [hstays.2 r]
      cases hresponse : layer.rt.serializeResponse layer.allocator layer.rt.buildErrorResponse with
      | none =>
        rw [hresponse] at hout
        exact ⟨nofun, hq, hmade.cons hout⟩
      | some _ =>
        rw [hresponse] at hout
        refine (logApiCallOnce_obeys hq).bind (fun _ q' h => ?_) fun e q' h => ?_
        · exact ⟨fun _ => h.1, .inr h.1, hmade.cons hout⟩
        · obtain rfl := h.2 e rfl
          exact ⟨nofun, .inr h.1, trivial⟩
    | .ok inner, hmade =>
      have hout : layer.respond (some inner) = _ := respond_some hrequest
      simp only
      refine (readResponse_obeys inner hq).bind (fun _ q' h => ?_) fun e q' h => ?_
      case refine_2 =>
        obtain ⟨rfl, he⟩ := h
        obtain rfl := he e rfl
        exact ⟨nofun, hq, trivial⟩
      obtain ⟨rfl, -⟩ := h
      cases houtgoing : layer.rt.outgoing layer.request inner with
      | none =>
        rw [houtgoing] at hout
        exact ⟨nofun, hq, hmade.cons hout⟩
      | some response =>
        rw [houtgoing, Option.bind_some] at hout
        cases hresponse : layer.rt.serializeResponse layer.allocator response with
        | none =>
          simp only [Prog.ret_bind, hresponse]
          rw [hresponse] at hout
          exact ⟨nofun, hq, hmade.cons hout⟩
        | some _ =>
          simp only [Prog.ret_bind, hresponse]
          rw [hresponse] at hout
          refine (logApiCallOnceInBackground_obeys hq).bind (fun _ q' h => ?_) fun e q' h => ?_
          · exact ⟨fun _ => h.1, .inr h.1, hmade.cons hout⟩
          · obtain rfl := h.2 e rfl
            exact ⟨nofun, .inr h.1, trivial⟩

/-- An application does not touch the log. -/
theorem app_obeys {app : M Response}
    (happ : app.Only (IsPlain request))
    (hp : Serves request p) :
    Obeys discipline (fun r q => Serves request q ∧ Unaltered [] app r) p app := by
  suffices h : ∀ rest : M Response,
        rest.Only (IsPlain request) → (∀ r, CanEnd rest r → CanEnd app r) →
      Obeys discipline (fun r q => q = p ∧ CanEnd app r) p rest by
    refine (h app happ fun _ => id).mono fun r q hq => ?_
    obtain ⟨rfl, hends⟩ := hq
    refine ⟨hp, ?_⟩
    match r with
    | .ok response => exact .inl ⟨some response, hends, rfl⟩
    | .error (.exception text) => exact .inl ⟨none, ⟨text, hends⟩, rfl⟩
    | .error .cancelled => trivial
  intro rest hrest hends
  induction rest with
  | ret a => exact ⟨rfl, hends _ rfl⟩
  | raise e => exact ⟨rfl, hends _ rfl⟩
  | call c k ih =>
    obtain ⟨hc, hk⟩ := hrest
    refine ⟨(hp.stays hc).1, fun reply => ?_⟩
    rw [(hp.stays hc).2 reply]
    exact ih reply (hk reply) fun r hr => hends r ⟨reply, hr⟩

theorem stack_obeys {app : M Response}
    (happ : app.Only (IsPlain request))
    (layers : List Layer) (hp : Serves request p) :
    Obeys discipline (fun r q =>
        ((∃ response, r = .ok response) → layers ≠ [] → q = .settled request) ∧
          Serves request q ∧ Unaltered layers app r) p (stack layers app request) := by
  induction layers generalizing p with
  | nil => exact (app_obeys happ hp).mono fun r q h => ⟨fun _ hne => absurd rfl hne, h⟩
  | cons layer layers ih =>
    have hnext : ∀ q, Serves request q →
        Obeys discipline (fun r q => Serves request q ∧ Unaltered layers app r) q
          (stack layers app request) :=
      fun q hq => (ih hq).mono fun _ _ h => h.2
    exact (dispatch_obeys hnext hp).mono fun r q h => ⟨fun hr _ => h.1 hr, h.2⟩

theorem body_obeys (call : Call) : Obeys discipline (EndsWith call) .outside call.body := by
  cases call with
  | serve layers app happ =>
    refine ⟨trivial, fun request => ?_⟩
    refine (stack_obeys (happ request) layers (.inl rfl)).bind (fun response q h => ?_)
      fun e q h => ?_
    · exact ⟨h.1 ⟨response, rfl⟩, h.2⟩
    · exact ⟨request, h.2⟩
  | runTask =>
    refine ⟨trivial, fun job => ?_⟩
    have hwork : Obeys discipline
        (fun r q => q = .worked job.task ∧ ∀ e, r = .error e → e = .cancelled)
        (.working job.task job.request) (logApiCall job.request job.record) :=
      logApiCall_obeys rfl fun _ => rfl
    refine hwork.tryFinally fun ended q h => ?_
    obtain ⟨rfl, -⟩ := h
    exact ⟨rfl, fun _ => rfl⟩

end obeys

end BaseWebService.Middleware.LogOnce
