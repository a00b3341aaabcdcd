import Mathlib.Algebra.GroupWithZero.Nat
import BaseWebService.Library.Dialogue
import BaseWebService.Library.PyBytes
import BaseWebService.Library.PyText

/-!
# ASGI applications

An application is given a scope and then talks to the server by two calls, `receive` and `send`,
each of which may raise. It is a flowchart, so it may go on as long as it likes and catch what it
likes; a middleware makes an application of an application.
-/

namespace BaseWebService.Middleware

open Library

/-- A raw header: name and value. -/
abbrev Header := Bytes × Bytes

/-- The entries of a scope that the middlewares read. -/
structure Scope where
  type : String
  method : String
  headers : List Header

/-- A message in either direction, with the entries the middlewares read or write. -/
structure Message where
  type : String
  body : Option Bytes
  moreBody : Option Bool
  status : Option ℕ
  headers : List Header
  deriving DecidableEq

namespace Message

/-- `message.get("body", b"")`. -/
def bodyBytes (m : Message) : Bytes := m.body.getD []

def request (body : Bytes) (moreBody : Bool) : Message :=
  ⟨"http.request", some body, some moreBody, none, []⟩

def responseStart (status : ℕ) (headers : List Header) : Message :=
  ⟨"http.response.start", none, none, some status, headers⟩

def responseBody (body : Bytes) : Message := ⟨"http.response.body", some body, none, none, []⟩

def IsRequest (m : Message) : Prop := m.type = "http.request"

instance (m : Message) : Decidable m.IsRequest :=
  inferInstanceAs (Decidable (m.type = "http.request"))

def IsStart (m : Message) : Prop := m.type = "http.response.start"

instance (m : Message) : Decidable m.IsStart :=
  inferInstanceAs (Decidable (m.type = "http.response.start"))

end Message

inductive Call where
  | receive
  | send (message : Message)

def Call.Reply (ε : Type) : Call → Type
  | .receive => Except ε Message
  | .send _ => Except ε Unit

section events
variable (ε : Type)

abbrev AsgiEvent := Event Call (Call.Reply ε)
abbrev AsgiProg (α : Type) := Prog Call (Call.Reply ε) ε α
abbrev AsgiFlow (P : Type) := Flow Call (Call.Reply ε) ε Unit P

/-- What runs on a scope, whose flowchart starts at `start scope`. -/
structure Application where
  Point : Type
  flow : AsgiFlow ε Point
  start : Scope → Point

end events

variable {ε : Type}

/-- A dialogue of the application on a scope. -/
def Application.Says (app : Application ε) (scope : Scope) (es : List (AsgiEvent ε))
    (p : app.Point) : Prop :=
  Dialogue app.flow (app.start scope) es p

/-- Send the messages one after the other. -/
def sendAll : List Message → AsgiProg ε Unit
  | [] => pure ()
  | m :: ms => .call (.send m) fun
    | .ok () => sendAll ms
    | .error e => throw e

/-- The flowchart sends the messages from the point on, and returns; what the server raises, it
raises. -/
def Responds {P : Type} (flow : AsgiFlow ε P) : P → List Message → Prop
  | p, [] => flow p = .ret ()
  | p, m :: ms => ∃ next, flow p = .call (.send m) next ∧ Responds flow (next (.ok ())) ms ∧
    ∀ e, flow (next (.error e)) = .raise e

theorem sendAll_responds (ms : List Message) :
    Responds (Prog.flow : AsgiFlow ε _) (sendAll ms) ms := by
  induction ms with
  | nil => rfl
  | cons m ms ih => exact ⟨_, rfl, ih, fun _ => rfl⟩

/-- Renaming the points does not change the response. -/
theorem Responds.map {P Q : Type} {flow : AsgiFlow ε P} {flow' : AsgiFlow ε Q} {f : P → Q}
    (hflow : ∀ p, flow' (f p) = (flow p).map f) {p : P} {ms : List Message}
    (h : Responds flow p ms) : Responds flow' (f p) ms := by
  induction ms generalizing p with
  | nil =>
    have hp : flow p = .ret () := h
    exact (hflow p).trans (by rw [hp]; rfl)
  | cons m ms ih =>
    obtain ⟨next, hp, hnext, herror⟩ := h
    refine ⟨f ∘ next, (hflow p).trans (by rw [hp]; rfl), ih hnext, fun e => ?_⟩
    exact (hflow _).trans (by rw [herror]; rfl)

/-- What a flowchart answers depends on what it does at the point alone. -/
theorem Responds.of_flow_eq {P : Type} {flow : AsgiFlow ε P} {p q : P} {ms : List Message}
    (hflow : flow p = flow q) (h : Responds flow q ms) : Responds flow p ms := by
  cases ms with
  | nil => exact hflow.trans h
  | cons m ms =>
    obtain ⟨next, hq, hrest⟩ := h
    exact ⟨next, hflow.trans hq, hrest⟩

/-- `JSONResponse(status_code, content)` of an HTTP request, from the text of the content. -/
def jsonResponse (status : ℕ) (body : Bytes) : List Message :=
  [.responseStart status [(bytesOf "content-length", bytesOf (pyStr body.length)),
    (bytesOf "content-type", bytesOf "application/json")], .responseBody body]

namespace AsgiEvent

/-- The size of the body that the event brings. -/
def bodySize : AsgiEvent ε → ℕ
  | ⟨.receive, .ok m⟩ => if m.IsRequest then m.bodyBytes.length else 0
  | _ => 0

/-- The event brings a part of the body. -/
def isRequest : AsgiEvent ε → Bool
  | ⟨.receive, .ok m⟩ => m.IsRequest
  | _ => false

/-- The event starts a response. -/
def isStart : AsgiEvent ε → Bool
  | ⟨.send m, _⟩ => m.IsStart
  | _ => false

end AsgiEvent

/-- The body bytes that are received in a dialogue. -/
def bodyBytes (es : List (AsgiEvent ε)) : ℕ := (es.map AsgiEvent.bodySize).sum

/-- The responses that are started in a dialogue. -/
def starts (es : List (AsgiEvent ε)) : ℕ := es.countP AsgiEvent.isStart

@[simp] theorem bodyBytes_nil : bodyBytes ([] : List (AsgiEvent ε)) = 0 := rfl
@[simp] theorem bodyBytes_cons (e : AsgiEvent ε) (es : List (AsgiEvent ε)) :
    bodyBytes (e :: es) = AsgiEvent.bodySize e + bodyBytes es := rfl
@[simp] theorem bodyBytes_append (es es' : List (AsgiEvent ε)) :
    bodyBytes (es ++ es') = bodyBytes es + bodyBytes es' := by
  simp [bodyBytes]

@[simp] theorem starts_nil : starts ([] : List (AsgiEvent ε)) = 0 := rfl
@[simp] theorem starts_cons (e : AsgiEvent ε) (es : List (AsgiEvent ε)) :
    starts (e :: es) = starts es + if e.isStart then 1 else 0 := List.countP_cons ..
@[simp] theorem starts_append (es es' : List (AsgiEvent ε)) :
    starts (es ++ es') = starts es + starts es' := List.countP_append ..

/-- A response starts once if one of its messages starts it. -/
theorem starts_sendAll {ms : List Message} {es : List (AsgiEvent ε)} {rest : AsgiProg ε Unit}
    (h : Dialogue Prog.flow (sendAll ms) es rest) :
    starts es ≤ ms.countP fun m => m.IsStart := by
  induction ms generalizing es with
  | nil =>
    cases h with
    | nil => simp
    | cons hp => cases hp
  | cons m ms ih =>
    cases h with
    | nil => simp
    | @cons p q c next r es hp h =>
      obtain ⟨rfl, hnext⟩ := Node.call.inj hp
      obtain rfl := eq_of_heq hnext
      have hcount : starts es ≤ ms.countP fun m => m.IsStart := by
        cases r with
        | ok => exact ih h
        | error e =>
          cases h with
          | nil => simp
          | cons hp => cases hp
      rw [starts_cons, List.countP_cons]
      exact Nat.add_le_add hcount le_rfl

end BaseWebService.Middleware
