import Mathlib.Algebra.Order.Group.Multiset
import Mathlib.Tactic.FinCases
import BaseWebService.Grpc.Server

/-!
# What a gRPC server leaves behind

Nothing, unless one of the commands that take something down has raised, or one that comes between
what takes it up and the `try`: the start of a server, the registration of its handlers, the
instrumentation. `Kept` says so of every moment: a server that is up, and a handler of the loop,
belong to a task that waits, or to one in which such a command has raised.

## Main results

* `body_obeys` : what each function does, whatever it meets.
* `kept` : what every run keeps.
* `nothing_left`, `handlers_awaited`, `signal_stops` : what follows for the loop.
-/

namespace BaseWebService.Grpc

open Library

/-! ## The discipline -/

/-- Where a task stands with its server; while it is up, the event to wait for, if the task has made
it, and the handlers it has yet to remove. -/
inductive Serving where
  | idle
  | made (server : ℕ)
  | up (server : ℕ) (event : Option ℕ) (registered : List Signal)
  | down (server : ℕ)
  | failed

/-- Where a task stands with the tracer provider: it has set it, and has not shut it down. -/
inductive Tracing where
  | off
  | live
  | failed
  deriving DecidableEq

structure Place where
  tracing : Tracing
  serving : Serving

def Serving.allows : Serving → Command → Prop
  | .idle, .newServer | .idle, .set _ | .idle, .deliver _ => True
  | .made server, .start server' => server' = server
  | .up _ event registered, .newEvent => event = none ∧ registered = []
  | .up server event _, .addSignalHandler server' _ event' => server' = server ∧ event = some event'
  | .up server event _, .wait server' event' => server' = server ∧ ∀ own ∈ event, event' = own
  | .up server _ registered, .removeSignalHandler server' sig =>
    server' = server ∧ registered.head? = some sig
  | .up server _ registered, .stop server' => server' = server ∧ registered = []
  | _, _ => False

def Serving.next : Serving → (c : Command) → c.Reply → Serving
  | _, .newServer, .ok server => .made server
  | .made server, .start _, .ok _ => .up server none []
  | .made _, .start _, .error _ => .failed
  | .up server _ registered, .newEvent, event => .up server (some event) registered
  | .up server event registered, .addSignalHandler _ sig _, .ok _ =>
    .up server event (registered ++ [sig])
  | p, .addSignalHandler _ _ _, .error .notImplementedError => p
  | .up _ _ _, .addSignalHandler _ _ _, .error _ => .failed
  | .up server event registered, .removeSignalHandler _ _, .ok _ =>
    .up server event registered.tail
  | .up _ _ _, .removeSignalHandler _ _, .error _ => .failed
  | .up server _ _, .stop _, .ok _ => .down server
  | .up _ _ _, .stop _, .error _ => .failed
  | p, _, _ => p

def IsTracing : Command → Prop
  | .configureLogging | .readProvider | .newProvider | .telemetry _ | .clearProvider => True
  | _ => False

def Tracing.next : Tracing → (c : Command) → c.Reply → Tracing
  | _, .newProvider, .ok _ => .live
  | _, .telemetry _, .error _ => .failed
  | .live, .readProvider, provider => if provider then .live else .off
  | .live, .clearProvider, _ => .off
  | p, _, _ => p

def discipline : Discipline Command Command.Reply Place where
  allows p c := IsTracing c ∨ p.serving.allows c
  next p c r := ⟨p.tracing.next c r, p.serving.next c r⟩

/-- Nothing is left to do for the server. -/
def Serving.IsSpent : Serving → Prop
  | .made _ | .up _ _ _ => False
  | _ => True

/-- A task that ends has left neither its server up nor the provider set, or has failed to. -/
structure EndsWith (call : Call) (_ : Except Failure call.Value) (p : Place) : Prop where
  tracing : p.tracing ≠ .live
  serving : p.serving.IsSpent

section obeys
variable {server : ℕ} {event : Option ℕ} {tracing : Tracing}

theorem addSignalHandlers_obeys {event : ℕ} (signals registered : List Signal) :
    Obeys discipline (fun r p => p = ⟨tracing, match r with
        | .ok more => .up server (some event) (registered ++ more)
        | .error _ => .failed⟩)
      ⟨tracing, .up server (some event) registered⟩
      (GrpcServer.addSignalHandlers server event signals) := by
  induction signals generalizing registered with
  | nil => exact congrArg (fun l => (⟨tracing, .up server (some event) l⟩ : Place)) (by simp)
  | cons sig signals ih =>
    refine ⟨.inr ⟨rfl, rfl⟩, fun r => ?_⟩
    match r with
    | .ok () =>
      refine (ih (registered ++ [sig])).bind (fun more p h => ?_) fun e p h => h
      obtain rfl := h
      exact congrArg (fun l => (⟨tracing, .up server (some event) l⟩ : Place)) (by simp)
    | .error .notImplementedError => exact ih registered
    | .error .cancelled | .error (.other _) => rfl

/-- The event and the handlers that `serve` waits with. -/
theorem stopEvent_obeys :
    Obeys discipline (fun r p => match r with
        | .ok (event', registered) => ∃ own, p = ⟨tracing, .up server own registered⟩ ∧
          ∀ event ∈ own, event' = event
        | .error _ => p = ⟨tracing, .failed⟩)
      ⟨tracing, .up server none []⟩ (GrpcServer.stopEvent server event) := by
  cases event with
  | some event => exact ⟨none, rfl, nofun⟩
  | none =>
    refine ⟨.inr ⟨rfl, rfl⟩, fun event => ?_⟩
    refine (addSignalHandlers_obeys [.sigint, .sigterm] []).bind (fun registered p h => ?_)
      fun e p h => h
    exact ⟨some event, h, fun own hown => Option.some.inj hown⟩

theorem removeSignalHandlers_obeys (registered : List Signal) :
    Obeys discipline (fun r p => p = ⟨tracing, match r with
        | .ok _ => .up server event []
        | .error _ => .failed⟩)
      ⟨tracing, .up server event registered⟩
      (GrpcServer.removeSignalHandlers server registered) := by
  induction registered with
  | nil => exact rfl
  | cons sig registered ih =>
    refine ⟨.inr ⟨rfl, rfl⟩, fun r => ?_⟩
    cases r with
    | ok _ => exact ih
    | error e => exact rfl

theorem stop_obeys : Obeys discipline (fun _ p => p.tracing = tracing ∧ p.serving.IsSpent)
    ⟨tracing, .up server event []⟩ (GrpcServer.stop server) := by
  refine ⟨.inr ⟨rfl, rfl⟩, fun r => ?_⟩
  cases r with
  | ok _ => exact ⟨rfl, trivial⟩
  | error e => exact ⟨rfl, trivial⟩

theorem serve_obeys : Obeys discipline (fun _ p => p.tracing = tracing ∧ p.serving.IsSpent)
    ⟨tracing, .made server⟩ (GrpcServer.serve server event) := by
  refine ⟨.inr rfl, fun r => ?_⟩
  cases r with
  | error e => exact ⟨rfl, trivial⟩
  | ok _ =>
    refine stopEvent_obeys.bind (fun r p h => ?_) fun e p h => ?_
    · obtain ⟨event', registered⟩ := r
      obtain ⟨own, rfl, hown⟩ := h
      have hwait : Obeys discipline (fun _ p => p = ⟨tracing, .up server own registered⟩)
          ⟨tracing, .up server own registered⟩
          (do orRaise (← ask (.wait server event'))) := by
        refine ⟨.inr ⟨rfl, hown⟩, fun r => ?_⟩
        cases r with
        | ok _ => exact rfl
        | error e => exact rfl
      refine hwait.tryFinally fun ended p h => ?_
      obtain rfl := h
      refine (removeSignalHandlers_obeys registered).bind (fun _ p h => ?_) fun e p h => ?_
      · obtain rfl := h
        exact stop_obeys.mono fun r p h => by cases r <;> exact h
      · obtain rfl := h
        exact ⟨rfl, trivial⟩
    · obtain rfl := h
      exact ⟨rfl, trivial⟩

variable {serving : Serving}

theorem telemetry_obeys (steps : List Telemetry) :
    Obeys discipline (fun r p => p = ⟨match r with
        | .ok _ => tracing
        | .error _ => .failed, serving⟩) ⟨tracing, serving⟩ (telemetry steps) := by
  induction steps with
  | nil => exact rfl
  | cons step steps ih =>
    refine ⟨.inl trivial, fun r => ?_⟩
    cases r with
    | ok _ => exact ih
    | error e => exact rfl

theorem setupOpentelemetry_obeys (settings : Settings) :
    Obeys discipline (fun r p => p.serving = serving ∧ ∀ e, r = .error e → p.tracing ≠ .live)
      ⟨.off, serving⟩ (setupOpentelemetry settings) := by
  unfold setupOpentelemetry
  split
  · exact ⟨rfl, nofun⟩
  · refine ⟨.inl trivial, fun provider => ?_⟩
    cases provider with
    | true => exact ⟨rfl, nofun⟩
    | false =>
      refine ⟨.inl trivial, fun r => ?_⟩
      cases r with
      | error e => exact ⟨rfl, fun _ _ => nofun⟩
      | ok _ =>
        refine (telemetry_obeys _).bind (fun _ p h => ?_) fun e p h => ?_
        · obtain rfl := h
          exact ⟨rfl, nofun⟩
        · obtain rfl := h
          exact ⟨rfl, fun _ _ => nofun⟩

theorem shutdownOpentelemetry_obeys :
    Obeys discipline (fun _ p => p.serving = serving ∧ p.tracing ≠ .live) ⟨tracing, serving⟩
      shutdownOpentelemetry := by
  refine ⟨.inl trivial, fun provider => ?_⟩
  cases provider with
  | false => cases tracing <;> exact ⟨rfl, nofun⟩
  | true =>
    have hnext : discipline.next ⟨tracing, serving⟩ .readProvider true = ⟨tracing, serving⟩ := by
      cases tracing <;> rfl
    rw [hnext]
    refine (telemetry_obeys _).bind (fun _ p h => ?_) fun e p h => ?_
    · obtain rfl := h
      refine ⟨.inl trivial, fun _ => ?_⟩
      cases tracing <;> exact ⟨rfl, nofun⟩
    · obtain rfl := h
      exact ⟨rfl, nofun⟩

/-- A server is made, and served. -/
theorem newServer_obeys :
    Obeys discipline (fun _ p => p.tracing = tracing ∧ p.serving.IsSpent) ⟨tracing, .idle⟩ (do
      let server ← orRaise (← ask .newServer)
      GrpcServer.serve server event) := by
  refine ⟨.inr trivial, fun r => ?_⟩
  cases r with
  | ok server => exact serve_obeys
  | error e => exact ⟨rfl, trivial⟩

theorem runServer_obeys (settings : Settings) :
    Obeys discipline (EndsWith .runServer) ⟨.off, .idle⟩ (runServer settings) := by
  refine ⟨.inl trivial, fun r => ?_⟩
  cases r with
  | error e => exact ⟨nofun, trivial⟩
  | ok _ =>
    refine (setupOpentelemetry_obeys settings).bind (fun _ p h => ?_) fun e p h => ?_
    · obtain ⟨tracing, serving⟩ := p
      obtain rfl := h.1
      refine newServer_obeys.tryFinally fun ended p h => ?_
      refine shutdownOpentelemetry_obeys.mono fun r p' h' => ?_
      have hends : EndsWith .runServer ended p' := ⟨h'.2, h'.1 ▸ h.2⟩
      cases r <;> exact ⟨hends.tracing, hends.serving⟩
    · obtain ⟨hserving, htracing⟩ := h
      exact ⟨htracing e rfl, hserving ▸ trivial⟩

theorem body_obeys (settings : Settings) (call : Call) :
    Obeys discipline (EndsWith call) ⟨.off, .idle⟩ (call.body settings) := by
  cases call with
  | serve event => exact newServer_obeys.mono fun _ p h => ⟨h.1 ▸ nofun, h.2⟩
  | runServer => exact runServer_obeys settings
  | set event => exact ⟨.inr trivial, fun _ => ⟨nofun, trivial⟩⟩
  | deliver sig => exact ⟨.inr trivial, fun _ => ⟨nofun, trivial⟩⟩

end obeys

/-! ## What is kept -/

/-- A command of `serve` has raised that takes something up without a `finally`, or down. -/
def IsFault (server : ℕ) : ServerEvent → Prop
  | ⟨.addSignalHandler _ _ _, .error .notImplementedError⟩ => False
  | ⟨.start server', .error _⟩ | ⟨.addSignalHandler server' _ _, .error _⟩
  | ⟨.removeSignalHandler server' _, .error _⟩ | ⟨.stop server', .error _⟩ => server' = server
  | _ => False

def IsTracingFault : ServerEvent → Prop
  | ⟨.telemetry _, .error _⟩ => True
  | _ => False

def Serving.Holds (server : ℕ) : Serving → Prop
  | .up server' _ _ => server' = server
  | _ => False

/-- The task waits for the event of the handler, and will remove it. -/
def Serving.Handles (sig : Signal) (server event : ℕ) : Serving → Prop
  | .up server' event' registered => server' = server ∧ event' = some event ∧ sig ∈ registered
  | _ => False

/-- What is up belongs to a task that will take it down, or to one that has failed. -/
structure Owned (h : List ServerEvent) (m : Multiset Place) (s : ServerStore) : Prop where
  up : ∀ server ∈ s.up, (∃ p ∈ m, p.serving.Holds server) ∨ ∃ e ∈ h, IsFault server e
  handlers : ∀ sig server event, s.handlers sig = some (server, event) →
    (∃ p ∈ m, p.serving.Handles sig server event) ∨ ∃ e ∈ h, IsFault server e
  provider : s.provider = true → (∃ p ∈ m, p.tracing = .live) ∨ ∃ e ∈ h, IsTracingFault e

section owned
variable {h : List ServerEvent} {m : Multiset Place} {s t : ServerStore} {p q : Place}
  {e : ServerEvent}

/-- What was owned by another is owned still. -/
theorem owned_of_cons {H : Place → Prop} {F : ServerEvent → Prop}
    (hold : (∃ x ∈ p ::ₘ m, H x) ∨ ∃ e ∈ h, F e) (hnew : H p → H q ∨ F e) :
    (∃ x ∈ q ::ₘ m, H x) ∨ ∃ e' ∈ h ++ [e], F e' := by
  rcases hold with ⟨x, hx, hH⟩ | ⟨e', he', hF⟩
  · rcases Multiset.mem_cons.mp hx with rfl | hx
    · rcases hnew hH with hH | hF
      · exact .inl ⟨q, Multiset.mem_cons_self _ _, hH⟩
      · exact .inr ⟨e, List.mem_concat_self, hF⟩
    · exact .inl ⟨x, Multiset.mem_cons_of_mem hx, hH⟩
  · exact .inr ⟨e', List.mem_append_left _ he', hF⟩

/-- What the task that moves has to see to. -/
theorem Owned.step (hs : Owned h (p ::ₘ m) s)
    (hup : ∀ server ∈ t.up, q.serving.Holds server ∨ IsFault server e ∨
      server ∈ s.up ∧ (p.serving.Holds server → q.serving.Holds server ∨ IsFault server e))
    (hhandlers : ∀ sig server event, t.handlers sig = some (server, event) →
      q.serving.Handles sig server event ∨ IsFault server e ∨
      s.handlers sig = some (server, event) ∧ (p.serving.Handles sig server event →
        q.serving.Handles sig server event ∨ IsFault server e))
    (hprovider : t.provider = true → q.tracing = .live ∨ IsTracingFault e ∨
      s.provider = true ∧ (p.tracing = .live → q.tracing = .live ∨ IsTracingFault e)) :
    Owned (h ++ [e]) (q ::ₘ m) t where
  up server hserver := by
    rcases hup server hserver with hq | he | ⟨hold, hnew⟩
    · exact .inl ⟨q, Multiset.mem_cons_self _ _, hq⟩
    · exact .inr ⟨e, List.mem_concat_self, he⟩
    · exact owned_of_cons (hs.up server hold) hnew
  handlers sig server event hhandler := by
    rcases hhandlers sig server event hhandler with hq | he | ⟨hold, hnew⟩
    · exact .inl ⟨q, Multiset.mem_cons_self _ _, hq⟩
    · exact .inr ⟨e, List.mem_concat_self, he⟩
    · exact owned_of_cons (hs.handlers sig server event hold) hnew
  provider htrue := by
    rcases hprovider htrue with hq | he | ⟨hold, hnew⟩
    · exact .inl ⟨q, Multiset.mem_cons_self _ _, hq⟩
    · exact .inr ⟨e, List.mem_concat_self, he⟩
    · exact owned_of_cons (hs.provider hold) hnew

/-- A command that has to do with the tracer provider only. -/
theorem Owned.trace {tracing : Tracing} {serving : Serving} {c : Command} {r : c.Reply}
    (hs : Owned h (⟨tracing, serving⟩ ::ₘ m) s) (hup : t.up = s.up)
    (hhandlers : t.handlers = s.handlers)
    (hprovider : t.provider = true → (tracing.next c r = .live ∨ IsTracingFault ⟨c, r⟩) ∨
      s.provider = true ∧
        (tracing = .live → tracing.next c r = .live ∨ IsTracingFault ⟨c, r⟩)) :
    Owned (h ++ [⟨c, r⟩]) (⟨tracing.next c r, serving⟩ ::ₘ m) t := by
  refine hs.step (fun server hmem => ?_) (fun sig server event hhandler => ?_) fun htrue => ?_
  · exact .inr (.inr ⟨hup ▸ hmem, .inl⟩)
  · exact .inr (.inr ⟨hhandlers ▸ hhandler, .inl⟩)
  · exact or_assoc.mp (hprovider htrue)

/-- A command that has nothing to do with it. -/
theorem Owned.serve {tracing : Tracing} {serving serving' : Serving}
    (hs : Owned h (⟨tracing, serving⟩ ::ₘ m) s) (hprovider : t.provider = s.provider)
    (hup : ∀ server ∈ t.up, (serving'.Holds server ∨ IsFault server e) ∨
      server ∈ s.up ∧ (serving.Holds server → serving'.Holds server ∨ IsFault server e))
    (hhandlers : ∀ sig server event, t.handlers sig = some (server, event) →
      (serving'.Handles sig server event ∨ IsFault server e) ∨
      s.handlers sig = some (server, event) ∧ (serving.Handles sig server event →
        serving'.Handles sig server event ∨ IsFault server e)) :
    Owned (h ++ [e]) (⟨tracing, serving'⟩ ::ₘ m) t :=
  hs.step (fun server hmem => or_assoc.mp (hup server hmem))
    (fun sig server event hhandler => or_assoc.mp (hhandlers sig server event hhandler))
    fun htrue => .inr (.inr ⟨hprovider ▸ htrue, .inl⟩)

/-- A command that changes nothing of what the task has. -/
theorem Owned.quiet (hs : Owned h (p ::ₘ m) s) (hprovider : t.provider = s.provider)
    (hup : t.up = s.up) (hhandlers : ∀ sig handler, t.handlers sig = some handler →
      s.handlers sig = some handler) : Owned (h ++ [e]) (p ::ₘ m) t :=
  hs.serve hprovider (fun _ hmem => .inr ⟨hup ▸ hmem, .inl⟩)
    fun _ _ _ hhandler => .inr ⟨hhandlers _ _ hhandler, .inl⟩

/-! Each of the two is moved by its own commands only. -/

theorem Serving.next_eq {serving : Serving} {c : Command} {r : c.Reply} (hc : IsTracing c) :
    serving.next c r = serving := by
  cases c with
  | configureLogging | readProvider | newProvider | telemetry | clearProvider =>
    cases serving <;> rfl
  | _ => exact hc.elim

theorem Tracing.next_eq {tracing : Tracing} {c : Command} {r : c.Reply} (hc : ¬ IsTracing c) :
    tracing.next c r = tracing := by
  cases c with
  | configureLogging | readProvider | newProvider | telemetry | clearProvider =>
    exact absurd trivial hc
  | _ => cases tracing <;> rfl

theorem handlers_of_handle {sig sig' : Signal} {handler : Option (ℕ × ℕ)} :
    (s.handle sig handler).handlers sig' = if sig' = sig then handler else s.handlers sig' :=
  Function.update_apply ..

theorem of_unhandled {sig sig' : Signal} {handler : ℕ × ℕ} {kept : Bool}
    (hhandler : (if kept then s else s.handle sig none).handlers sig' = some handler) :
    s.handlers sig' = some handler := by
  cases kept with
  | true => exact hhandler
  | false =>
    rw [if_neg Bool.false_ne_true, handlers_of_handle] at hhandler
    split at hhandler
    next => cases hhandler
    next => exact hhandler

section answers
variable {tracing : Tracing} {serving : Serving} {c : Command} {r : c.Reply}

theorem Owned.ends (hs : Owned h (⟨tracing, serving⟩ ::ₘ m) s) (hc : serving.allows c)
    (ha : s.Ends c r t) : Owned (h ++ [⟨c, r⟩]) (⟨tracing, serving.next c r⟩ ::ₘ m) t := by
  cases ha with
  | start =>
    cases serving with
    | made server =>
      obtain rfl := hc
      refine hs.serve rfl (fun server hmem => ?_) fun _ _ _ hhandler => .inr ⟨hhandler, nofun⟩
      rcases Finset.mem_insert.mp hmem with rfl | hmem
      · exact .inl (.inl rfl)
      · exact .inr ⟨hmem, nofun⟩
    | _ => exact hc.elim
  | @startError _ e begun =>
    cases serving with
    | made server =>
      obtain rfl := hc
      refine hs.serve (by cases begun <;> rfl) (fun server' hmem => ?_) fun _ _ _ hhandler =>
        .inr ⟨by cases begun <;> exact hhandler, nofun⟩
      cases begun with
      | false => exact .inr ⟨hmem, nofun⟩
      | true =>
        rcases Finset.mem_insert.mp hmem with rfl | hmem
        · exact .inl (.inr rfl)
        · exact .inr ⟨hmem, nofun⟩
    | _ => exact hc.elim
  | @wait server event | @waitError server event =>
    have hnext : ∀ r, serving.next (.wait server event) r = serving := by
      cases serving <;> exact fun _ => rfl
    rw [hnext]
    exact hs.quiet rfl rfl fun _ _ => id
  | @stop server =>
    cases serving with
    | up server' event registered =>
      obtain ⟨rfl, rfl⟩ := hc
      refine hs.serve rfl (fun server' hmem => ?_) fun _ _ _ hhandler => .inr ⟨hhandler, ?_⟩
      · obtain ⟨hne, hmem⟩ := Finset.mem_erase.mp hmem
        exact .inr ⟨hmem, fun heq => absurd heq.symm hne⟩
      · rintro ⟨-, -, hnone⟩
        exact absurd hnone List.not_mem_nil
    | _ => exact hc.elim
  | @stopError server e begun =>
    cases serving with
    | up server' event registered =>
      obtain ⟨rfl, rfl⟩ := hc
      refine hs.serve (by cases begun <;> rfl) (fun server' hmem => ?_) fun _ _ _ hhandler =>
        .inr ⟨by cases begun <;> exact hhandler, ?_⟩
      · refine .inr ⟨?_, .inr⟩
        cases begun with
        | false => exact hmem
        | true => exact Finset.mem_of_mem_erase hmem
      · rintro ⟨-, -, hnone⟩
        exact absurd hnone List.not_mem_nil
    | _ => exact hc.elim

/-- What is done between two waits for a server. -/
theorem Owned.answerServing (hs : Owned h (⟨tracing, serving⟩ ::ₘ m) s) (hc : serving.allows c)
    (ha : s.Answer c r t) : Owned (h ++ [⟨c, r⟩]) (⟨tracing, serving.next c r⟩ ::ₘ m) t := by
  cases ha with
  | ends ha => exact hs.ends hc ha
  | configureLogging | readProvider | newProvider | newProviderError | telemetry | clearProvider =>
    cases serving <;> exact hc.elim
  | newServer =>
    cases serving with
    | idle =>
      exact hs.serve rfl (fun _ hmem => .inr ⟨hmem, nofun⟩) fun _ _ _ hhandler =>
        .inr ⟨hhandler, nofun⟩
    | _ => exact hc.elim
  | newServerError =>
    cases serving with
    | idle => exact hs.quiet rfl rfl fun _ _ => id
    | _ => exact hc.elim
  | newEvent =>
    cases serving with
    | up server event registered =>
      obtain ⟨rfl, rfl⟩ := hc
      refine hs.serve rfl (fun _ hmem => .inr ⟨hmem, .inl⟩) fun _ _ _ hhandler =>
        .inr ⟨hhandler, fun hmine => ?_⟩
      cases hmine.2.1
    | _ => exact hc.elim
  | @addSignalHandler server event sig =>
    cases serving with
    | up server' event' registered =>
      obtain ⟨rfl, rfl⟩ := hc
      refine hs.serve rfl (fun _ hmem => .inr ⟨hmem, .inl⟩) fun sig' server' event' hhandler => ?_
      rw [handlers_of_handle] at hhandler
      split at hhandler
      next heq =>
        obtain ⟨rfl, rfl⟩ := Prod.mk.inj (Option.some.inj hhandler)
        exact .inl (.inl ⟨rfl, rfl, by simp [heq]⟩)
      next =>
        refine .inr ⟨hhandler, fun hmine => .inl ?_⟩
        exact ⟨hmine.1, hmine.2.1, List.mem_append_left _ hmine.2.2⟩
    | _ => exact hc.elim
  | @addSignalHandlerError server event sig e kept =>
    cases serving with
    | up server' event' registered =>
      obtain ⟨rfl, rfl⟩ := hc
      cases e with
      | notImplementedError =>
        exact hs.quiet (by cases kept <;> rfl) (by cases kept <;> rfl) fun _ _ => of_unhandled
      | cancelled | other =>
        refine hs.serve (by cases kept <;> rfl) (fun server' hmem => ?_) fun sig' server' event'
          hhandler => .inr ⟨of_unhandled hhandler, fun hmine => .inr hmine.1⟩
        exact .inr ⟨by cases kept <;> exact hmem, .inr⟩
    | _ => exact hc.elim
  | @removeSignalHandler server sig =>
    cases serving with
    | up server' event registered =>
      obtain ⟨rfl, hhead⟩ := hc
      refine hs.serve rfl (fun _ hmem => .inr ⟨hmem, .inl⟩) fun sig' server' event' hhandler => ?_
      rw [handlers_of_handle] at hhandler
      split at hhandler
      next => cases hhandler
      next hne =>
        refine .inr ⟨hhandler, fun hmine => .inl ⟨hmine.1, hmine.2.1, ?_⟩⟩
        obtain ⟨rest, rfl⟩ := List.head?_eq_some_iff.mp hhead
        exact (List.mem_cons.mp hmine.2.2).resolve_left hne
    | _ => exact hc.elim
  | @removeSignalHandlerError server sig e kept =>
    cases serving with
    | up server' event registered =>
      obtain ⟨rfl, hhead⟩ := hc
      refine hs.serve (by cases kept <;> rfl) (fun server' hmem => ?_) fun sig' server' event'
        hhandler => .inr ⟨of_unhandled hhandler, fun hmine => .inr hmine.1⟩
      exact .inr ⟨by cases kept <;> exact hmem, .inr⟩
    | _ => exact hc.elim
  | set =>
    cases serving with
    | idle => exact hs.quiet rfl rfl fun _ _ => id
    | _ => exact hc.elim
  | @deliver sig =>
    cases serving with
    | idle =>
      have hsignalled : (s.signalled sig).provider = s.provider ∧ (s.signalled sig).up = s.up ∧
          (s.signalled sig).handlers = s.handlers := by
        unfold ServerStore.signalled
        split <;> exact ⟨rfl, rfl, rfl⟩
      exact hs.quiet hsignalled.1 hsignalled.2.1 fun _ _ hhandler => hsignalled.2.2 ▸ hhandler
    | _ => exact hc.elim

/-- What is done about the tracer provider. -/
theorem Owned.answerTracing (hs : Owned h (⟨tracing, serving⟩ ::ₘ m) s) (hc : IsTracing c)
    (ha : s.Answer c r t) : Owned (h ++ [⟨c, r⟩]) (⟨tracing.next c r, serving⟩ ::ₘ m) t := by
  cases ha with
  | configureLogging =>
    refine hs.trace rfl rfl fun htrue => .inr ⟨htrue, fun hlive => .inl ?_⟩
    subst hlive
    rfl
  | readProvider =>
    refine hs.trace rfl rfl fun htrue => .inr ⟨htrue, fun hlive => .inl ?_⟩
    subst hlive
    exact if_pos htrue
  | newProvider =>
    refine hs.trace rfl rfl fun _ => .inl (.inl ?_)
    cases tracing <;> rfl
  | newProviderError =>
    refine hs.trace rfl rfl fun htrue => .inr ⟨htrue, fun hlive => .inl ?_⟩
    subst hlive
    rfl
  | @telemetry step r =>
    refine hs.trace rfl rfl fun htrue => .inr ⟨htrue, fun hlive => ?_⟩
    subst hlive
    cases r with
    | ok _ => exact .inl rfl
    | error _ => exact .inr trivial
  | clearProvider => exact hs.trace rfl rfl nofun
  | ends ha => cases ha <;> exact hc.elim
  | _ => exact hc.elim

/-- A command that is allowed keeps everything owned. -/
theorem Owned.answer (hs : Owned h (p ::ₘ m) s) (hc : discipline.allows p c)
    (ha : s.Answer c r t) : Owned (h ++ [⟨c, r⟩]) (discipline.next p c r ::ₘ m) t := by
  obtain ⟨tracing, serving⟩ := p
  by_cases htracing : IsTracing c
  · have hnext : serving.next c r = serving := Serving.next_eq htracing
    change Owned _ (⟨tracing.next c r, serving.next c r⟩ ::ₘ m) t
    rw [hnext]
    exact hs.answerTracing htracing ha
  · have hnext : tracing.next c r = tracing := Tracing.next_eq htracing
    change Owned _ (⟨tracing.next c r, serving.next c r⟩ ::ₘ m) t
    rw [hnext]
    exact hs.answerServing (hc.resolve_left htracing) ha

end answers

/-- A task that has nothing of its own begins. -/
theorem Owned.start (hs : Owned h m s) : Owned h (p ::ₘ m) s where
  up server hmem := (hs.up server hmem).imp_left fun ⟨x, hx, hmine⟩ =>
    ⟨x, Multiset.mem_cons_of_mem hx, hmine⟩
  handlers sig server event hhandler := (hs.handlers sig server event hhandler).imp_left
    fun ⟨x, hx, hmine⟩ => ⟨x, Multiset.mem_cons_of_mem hx, hmine⟩
  provider htrue := (hs.provider htrue).imp_left fun ⟨x, hx, hmine⟩ =>
    ⟨x, Multiset.mem_cons_of_mem hx, hmine⟩

/-- A task that has nothing left ends. -/
theorem Owned.finish (hs : Owned h (p ::ₘ m) s) (htracing : p.tracing ≠ .live)
    (hserving : p.serving.IsSpent) : Owned h m s := by
  have hrest : ∀ {H : Place → Prop}, ¬ H p → (∃ x ∈ p ::ₘ m, H x) → ∃ x ∈ m, H x := by
    rintro H hp ⟨x, hx, hmine⟩
    exact ⟨x, (Multiset.mem_cons.mp hx).resolve_left (by rintro rfl; exact hp hmine), hmine⟩
  obtain ⟨tracing, serving⟩ := p
  constructor
  case up =>
    intro server hmem
    refine (hs.up server hmem).imp_left (hrest ?_)
    cases serving <;> first | exact hserving.elim | exact id
  case handlers =>
    intro sig server event hhandler
    refine (hs.handlers sig server event hhandler).imp_left (hrest ?_)
    cases serving <;> first | exact hserving.elim | exact id
  case provider => exact fun htrue => (hs.provider htrue).imp_left (hrest htracing)

end owned

/-! ## Every run -/

abbrev ServerStance := Stance Command Place

/-- Commands that a task may wait for. -/
def IsSlow : Command → Prop
  | .start _ | .wait _ _ | .stop _ => True
  | _ => False

structure Kept (h : List ServerEvent) (m : Multiset ServerStance) (s : ServerStore) : Prop where
  owned : Owned h (m.map Stance.state) s
  waits : ∀ x ∈ m, ∀ c, x.waits = some c → discipline.allows x.state c ∧ IsSlow c

section kept
variable {h : List ServerEvent} {m : Multiset ServerStance} {s t : ServerStore} {i : ℕ}

theorem Kept.answer {x : ServerStance} {c : Command} {r : c.Reply} (hs : Kept h (x ::ₘ m) s)
    (hc : discipline.allows x.state c) (ha : s.Answer c r t) :
    Kept (h ++ [⟨c, r⟩]) (⟨i, discipline.next x.state c r, none⟩ ::ₘ m) t where
  owned := by
    have howned := hs.owned
    rw [Multiset.map_cons] at howned ⊢
    exact howned.answer hc ha
  waits y hy c hc := by
    rcases Multiset.mem_cons.mp hy with rfl | hy
    · cases hc
    · exact hs.waits y (Multiset.mem_cons_of_mem hy) c hc

theorem isSlow_of_suspends {c : Command} (h : s.Suspends c) : IsSlow c := by cases h <;> trivial

theorem maintains : Maintains serverKernel discipline (fun _ : Call => ⟨.off, .idle⟩) EndsWith Kept
    where
  start i call hidle hs := by
    refine ⟨?_, fun x hx c hc => ?_⟩
    · rw [Multiset.map_cons]
      exact hs.owned.start
    · rcases Multiset.mem_cons.mp hx with rfl | hx
      · cases hc
      · exact hs.waits x hx c hc
  answer hidle hs hallows hanswer := hs.answer hallows hanswer
  suspend hidle hs hallows hsuspend := by
    obtain ⟨hsuspends, rfl⟩ := hsuspend
    refine ⟨by simpa using hs.owned, fun x hx c hc => ?_⟩
    rcases Multiset.mem_cons.mp hx with rfl | hx
    · cases hc
      exact ⟨hallows, isSlow_of_suspends hsuspends⟩
    · exact hs.waits x (Multiset.mem_cons_of_mem hx) c hc
  resume hidle hs hallows hresume := hs.answer hallows (.ends hresume)
  finish hidle hs hends := by
    have howned := hs.owned
    rw [Multiset.map_cons] at howned
    exact ⟨howned.finish hends.tracing hends.serving,
      fun x hx => hs.waits x (Multiset.mem_cons_of_mem hx)⟩

theorem kept_fresh : Kept [] 0 {} where
  owned := ⟨by simp, nofun, nofun⟩
  waits := by simp

end kept

section runs
variable {settings : Settings} {tr : List (Transition ServerLoop ServerLabel)} {l : ServerLoop}

theorem kept (hrun : Run (ServerStep settings) (Loop.fresh {}) tr l) :
    Loop.Keeps discipline EndsWith Kept l :=
  Loop.maintained (body_obeys settings) maintains kept_fresh hrun

/-- What a task of the loop waits for. -/
def Waits (l : ServerLoop) (c : Command) : Prop := ∃ task ∈ l.waiting, task.rest.command = some c

/-- A task that waits, where it stands, and what it waits for. -/
theorem exists_waiting (hl : Loop.Keeps discipline EndsWith Kept l)
    (hidle : l.running = none) : ∃ m, Owned l.history m l.store ∧ ∀ p ∈ m, ∃ task ∈ l.waiting,
      Obeys discipline (EndsWith task.called) p task.rest ∧
      ∃ c, task.rest.command = some c ∧ discipline.allows p c ∧ IsSlow c := by
  obtain ⟨running, waiting, hmatch, hkept⟩ := hl
  obtain rfl := hmatch.running_nil hidle
  rw [Multiset.coe_nil, zero_add] at hkept
  refine ⟨_, hkept.owned, fun p hp => ?_⟩
  obtain ⟨x, hx, rfl⟩ := Multiset.mem_map.mp hp
  obtain ⟨task, htask, hstands, hwaits, hne⟩ := hmatch.exists_task (Multiset.mem_coe.mp hx)
  obtain ⟨c, hc⟩ := Option.ne_none_iff_exists'.mp hne
  exact ⟨task, htask, hstands.obeys, c, hwaits ▸ hc, hkept.waits x hx c hc⟩

/-- What the owner of a handler waits for. -/
theorem Serving.Handles.waits {p : Place} {sig : Signal} {server event : ℕ} {c : Command}
    (hp : p.serving.Handles sig server event) (hc : discipline.allows p c) (hslow : IsSlow c) :
    c = .wait server event := by
  obtain ⟨tracing, serving⟩ := p
  have hallows : serving.allows c := hc.resolve_left fun h => by
    cases c <;> first | exact h | exact hslow
  cases serving with
  | up server' event' registered =>
    obtain ⟨rfl, rfl, hmem⟩ := hp
    cases c with
    | wait server'' event'' =>
      obtain ⟨rfl, hown⟩ := hallows
      rw [hown event rfl]
    | stop server'' =>
      obtain ⟨-, rfl⟩ := hallows
      exact absurd hmem List.not_mem_nil
    | start => exact hallows.elim
    | _ => exact hslow.elim
  | _ => exact hp.elim

/-- In every run, whenever no task runs, a handler is there for a task that waits for its event, or
its server has failed to start or to stop, or in the registration or the removal of a handler. -/
theorem handlers_awaited (hrun : Run (ServerStep settings) (Loop.fresh {}) tr l)
    (hidle : l.running = none) {sig : Signal} {server event : ℕ}
    (hhandler : l.store.handlers sig = some (server, event)) :
    Waits l (.wait server event) ∨ ∃ e ∈ l.history, IsFault server e := by
  obtain ⟨m, howned, hm⟩ := exists_waiting (kept hrun) hidle
  refine (howned.handlers sig server event hhandler).imp_left fun ⟨p, hp, hmine⟩ => ?_
  obtain ⟨task, htask, -, c, hc, hallows, hslow⟩ := hm p hp
  exact ⟨task, htask, hmine.waits hallows hslow ▸ hc⟩

/-- In every run, once every task has ended, a server that is up, a handler that is there and a
provider that is set are those of a task in which a command of taking it down has failed, or one
between taking it up and the `try`. -/
theorem nothing_left (hrun : Run (ServerStep settings) (Loop.fresh {}) tr l)
    (hidle : l.running = none) (hended : l.waiting = []) :
    (∀ server ∈ l.store.up, ∃ e ∈ l.history, IsFault server e) ∧
      (∀ sig server event, l.store.handlers sig = some (server, event) →
        ∃ e ∈ l.history, IsFault server e) ∧
      (l.store.provider = true → ∃ e ∈ l.history, IsTracingFault e) := by
  obtain ⟨m, howned, hm⟩ := exists_waiting (kept hrun) hidle
  have hempty : ∀ {H : Place → Prop}, ¬ ∃ p ∈ m, H p := by
    rintro H ⟨p, hp, -⟩
    obtain ⟨task, htask, -⟩ := hm p hp
    exact absurd (hended ▸ htask) List.not_mem_nil
  exact ⟨fun server hmem => (howned.up server hmem).resolve_left hempty,
    fun sig server event hhandler =>
      (howned.handlers sig server event hhandler).resolve_left hempty,
    fun htrue => (howned.provider htrue).resolve_left hempty⟩

/-! ## A server that is asked to stop -/

/-- What is done about the tracer provider can go well. -/
theorem exists_answer_of_isTracing {c : Command} (hc : IsTracing c) (s : ServerStore) :
    ∃ r t, s.Answer c r t ∧ t.up = s.up ∧ t.set = s.set ∧ t.handlers = s.handlers := by
  cases c with
  | configureLogging => exact ⟨.ok (), s, .configureLogging, rfl, rfl, rfl⟩
  | readProvider => exact ⟨s.provider, s, .readProvider, rfl, rfl, rfl⟩
  | newProvider => exact ⟨.ok (), _, .newProvider, rfl, rfl, rfl⟩
  | telemetry => exact ⟨.ok (), s, .telemetry, rfl, rfl, rfl⟩
  | clearProvider => exact ⟨(), _, .clearProvider, rfl, rfl, rfl⟩
  | _ => exact hc.elim

/-- The server goes down, its event being set, and nothing else does. -/
inductive Stopping (up : Finset ℕ) (sig : Signal) (server event : ℕ) : Serving → ServerStore → Prop
  where
  | up {s : ServerStore} {registered : List Signal} : s.up = up → event ∈ s.set →
      sig ∈ registered ∨ s.handlers sig = none →
      Stopping up sig server event (.up server (some event) registered) s
  | down {s : ServerStore} : s.up = up.erase server → s.handlers sig = none →
      Stopping up sig server event (.down server) s

section stopping
variable {up : Finset ℕ} {sig : Signal} {server event : ℕ} {s : ServerStore}

theorem Stopping.of_eq {t : ServerStore} {serving : Serving}
    (hs : Stopping up sig server event serving s) (hup : t.up = s.up) (hset : t.set = s.set)
    (hhandlers : t.handlers = s.handlers) : Stopping up sig server event serving t := by
  cases hs with
  | up hup' hset' hhandler =>
    exact .up (hup.trans hup') (hset ▸ hset') (hhandlers ▸ hhandler)
  | down hup' hhandler => exact .down (hup.trans hup') (hhandlers ▸ hhandler)

theorem Stopping.exists_answer {p : Place} {c : Command} (hc : discipline.allows p c)
    (hs : Stopping up sig server event p.serving s) : ∃ r t, s.Answer c r t ∧
      Stopping up sig server event (discipline.next p c r).serving t := by
  obtain ⟨tracing, serving⟩ := p
  by_cases htracing : IsTracing c
  · obtain ⟨r, t, hanswer, hup, hset, hhandlers⟩ := exists_answer_of_isTracing htracing s
    have hnext : (discipline.next ⟨tracing, serving⟩ c r).serving = serving :=
      Serving.next_eq htracing
    refine ⟨r, t, hanswer, ?_⟩
    rw [hnext]
    exact hs.of_eq hup hset hhandlers
  have hallows : serving.allows c := hc.resolve_left htracing
  cases hs with
  | down => cases c <;> exact hallows.elim
  | @up _ registered hup hset hhandler =>
    cases c with
    | newEvent => exact absurd hallows.1 (Option.some_ne_none event)
    | addSignalHandler server' sig' event' =>
      refine ⟨.ok (), _, .addSignalHandler, .up hup hset ?_⟩
      rw [handlers_of_handle]
      split
      next heq => exact .inl (by simp [heq])
      next => exact hhandler.imp_left (List.mem_append_left _)
    | wait server' event' =>
      obtain rfl := hallows.2 event rfl
      exact ⟨.ok (), s, .ends (.wait hset), .up hup hset hhandler⟩
    | removeSignalHandler server' sig' =>
      refine ⟨.ok (), _, .removeSignalHandler, .up hup hset ?_⟩
      obtain ⟨rest, rfl⟩ := List.head?_eq_some_iff.mp hallows.2
      rw [handlers_of_handle]
      split
      next => exact .inr rfl
      next hne => exact hhandler.imp_left fun hmem => (List.mem_cons.mp hmem).resolve_left hne
    | stop server' =>
      obtain ⟨rfl, rfl⟩ := hallows
      exact ⟨.ok (), _, .ends .stop, .down (congrArg (Finset.erase · server') hup)
        (hhandler.resolve_left List.not_mem_nil)⟩
    | configureLogging | readProvider | newProvider | telemetry | clearProvider =>
      exact absurd trivial htracing
    | _ => exact hallows.elim

end stopping

variable (settings) in
/-- A signal is delivered, and the task that waits for the event of its handler goes on. -/
theorem exists_woken {call : Call} {i server event : ℕ} {sig : Signal} {owner : ℕ}
    {k : Except Failure Unit → M call.Value} {before after : List (LoopTask _ _ _ _)}
    (hidle : l.running = none) (hhandler : l.store.handlers sig = some (owner, event))
    (hwaiting : l.waiting = before ++ ⟨i, call, .call (.wait server event) k⟩ :: after) :
    ∃ tr' l', Run (ServerStep settings) l tr' l' ∧
      (∃ x ∈ tr', ∃ i, x.label = .answer i (.deliver sig) ()) ∧
      l'.running = some ⟨i, call, k (.ok ())⟩ ∧ l'.waiting = before ++ after ∧
      l'.store = l.store.signalled sig := by
  have hstart : Run (ServerStep settings) l _ _ := .single (.start (b := .deliver sig) hidle)
  have hdeliver := hstart.snoc (.answer rfl .deliver)
  have hset : event ∈ (l.store.signalled sig).set := by
    simp [ServerStore.signalled, hhandler]
  refine ⟨_, _, (hdeliver.snoc (.finish rfl rfl)).snoc (.resume rfl hwaiting (.wait hset)), ?_, rfl,
    rfl, rfl⟩
  exact ⟨_, List.mem_append_left _ (List.mem_append_left _ List.mem_concat_self), _, rfl⟩

/-- In every run, whenever no task runs, a signal that there is a handler for can be delivered so
that the task that waits for it goes on to its end and takes its server down, and the handler with
it, while the other servers stay up and the other tasks go on waiting; unless that server has failed
before. -/
theorem signal_stops (hrun : Run (ServerStep settings) (Loop.fresh {}) tr l)
    (hidle : l.running = none) {sig : Signal} {server event : ℕ}
    (hhandler : l.store.handlers sig = some (server, event))
    (hfault : ∀ e ∈ l.history, ¬ IsFault server e) :
    ∃ tr' l', Run (ServerStep settings) l tr' l' ∧
      (∃ x ∈ tr', ∃ i, x.label = .answer i (.deliver sig) ()) ∧ l'.running = none ∧
      l'.store.up = l.store.up.erase server ∧ l'.store.handlers sig = none ∧
      ∃ before task after, task.rest.command = some (.wait server event) ∧
        l.waiting = before ++ task :: after ∧ l'.waiting = before ++ after := by
  obtain ⟨m, howned, hm⟩ := exists_waiting (kept hrun) hidle
  obtain ⟨p, hp, hmine⟩ := (howned.handlers sig server event hhandler).resolve_right
    fun ⟨e, he, hfails⟩ => hfault e he hfails
  obtain ⟨⟨i, call, rest⟩, htask, hobeys, c, hc, hallows, hslow⟩ := hm p hp
  obtain rfl := hmine.waits hallows hslow
  obtain ⟨before, after, hwaiting⟩ := List.append_of_mem htask
  cases rest with
  | ret | raise => cases hc
  | call c k =>
    obtain rfl : c = .wait server event := Option.some.inj hc
    obtain ⟨tr₁, l₁, hwoken, ⟨x, hx, hdeliver⟩, hrunning, hwaiting₁, hstore⟩ :=
      exists_woken settings hidle hhandler hwaiting
    have hstopping : Stopping l.store.up sig server event
        (discipline.next p (.wait server event) (.ok ())).serving l₁.store := by
      obtain ⟨tracing, serving⟩ := p
      cases serving with
      | up server' event' registered =>
        obtain ⟨rfl, rfl, hmem⟩ := hmine
        rw [hstore]
        refine .up ?_ ?_ (.inl hmem)
        all_goals simp [ServerStore.signalled, hhandler]
      | _ => exact hmine.elim
    have hgoes : ∀ (p : Place) (c : Command) (s : ServerStore), discipline.allows p c →
        Stopping l.store.up sig server event p.serving s →
        ∃ r t, serverKernel.answer i c s r t ∧
          Stopping l.store.up sig server event (discipline.next p c r).serving t :=
      fun p c s hallows hs => hs.exists_answer hallows
    obtain ⟨tr₂, l', p', r, hrest, hidle', hwaiting', hends, hstopped⟩ :=
      Loop.exists_finish (J := fun p s => Stopping l.store.up sig server event p.serving s) hgoes
        hrunning (hobeys.2 (.ok ())) hstopping
    refine ⟨_, l', hwoken.trans hrest, ⟨x, List.mem_append_left _ hx, hdeliver⟩, hidle', ?_⟩
    have hspent := hends.serving
    generalize p'.serving = serving at hspent hstopped
    cases hstopped with
    | up => exact hspent.elim
    | down hup hnone =>
      exact ⟨hup, hnone, before, _, after, rfl, hwaiting, hwaiting'.trans hwaiting₁⟩

end runs

/-! ## A server that waits, and one that has failed to start -/

/-- A server is up, and waits to be stopped. -/
theorem exists_run_waiting : ∃ tr l, Run (ServerStep ⟨true⟩) (Loop.fresh {}) tr l ∧
    l.running = none ∧ l.store.handlers .sigint = some (0, 0) ∧ l.store.up = {0} ∧
    ∀ e ∈ l.history, ¬ IsFault 0 e := by
  have hstart : Run (ServerStep ⟨true⟩) (Loop.fresh {}) _ _ :=
    .single (.start (b := .runServer) rfl)
  have hread := (hstart.snoc (.answer (r := .ok ()) rfl .configureLogging)).snoc
    (.answer rfl .readProvider)
  have hprovider := ((hread.snoc (.answer rfl .newProvider)).snoc
    (.answer (r := .ok ()) rfl .telemetry)).snoc (.answer (r := .ok ()) rfl .telemetry)
  have htelemetry := (hprovider.snoc (.answer (r := .ok ()) rfl .telemetry)).snoc
    (.answer (r := .ok ()) rfl .telemetry)
  have hup := (htelemetry.snoc (.answer rfl .newServer)).snoc (.answer rfl (.ends .start))
  have hhandlers := ((hup.snoc (.answer rfl .newEvent)).snoc (.answer rfl .addSignalHandler)).snoc
    (.answer rfl .addSignalHandler)
  have hwait := hhandlers.snoc (.suspend rfl ⟨.wait (Finset.notMem_empty 0), rfl⟩)
  exact ⟨_, _, hwait, rfl, rfl, rfl, by
    intro e he
    fin_cases he <;> exact id⟩

theorem handlers_awaited_sample : ∃ tr l, Run (ServerStep ⟨true⟩) (Loop.fresh {}) tr l ∧
    l.running = none ∧ (Waits l (.wait 0 0) ∨ ∃ e ∈ l.history, IsFault 0 e) := by
  obtain ⟨tr, l, hrun, hidle, hhandler, -⟩ := exists_run_waiting
  exact ⟨tr, l, hrun, hidle, handlers_awaited hrun hidle hhandler⟩

theorem signal_stops_sample : ∃ tr l, Run (ServerStep ⟨true⟩) (Loop.fresh {}) tr l ∧
    l.store.up = ∅ ∧ l.store.handlers .sigint = none := by
  obtain ⟨tr, l, hrun, hidle, hhandler, hup, hfault⟩ := exists_run_waiting
  obtain ⟨tr', l', hrun', -, -, hup', hhandler', -⟩ := signal_stops hrun hidle hhandler hfault
  exact ⟨_, l', hrun.trans hrun', hup'.trans (by rw [hup]; rfl), hhandler'⟩

theorem nothing_left_sample : ∃ tr l, Run (ServerStep ⟨false⟩) (Loop.fresh {}) tr l ∧
    0 ∈ l.store.up ∧ ∃ e ∈ l.history, IsFault 0 e := by
  have hstart : Run (ServerStep ⟨false⟩) (Loop.fresh {}) _ _ :=
    .single (.start (b := .serve none) rfl)
  have hmade := hstart.snoc (.answer rfl .newServer)
  have hend := (hmade.snoc (.answer (r := .error .cancelled) rfl (.ends (.startError true)))).snoc
    (.finish rfl rfl)
  have hmem : 0 ∈ insert 0 (∅ : Finset ℕ) := Finset.mem_insert_self _ _
  exact ⟨_, _, hend, hmem, (nothing_left hend rfl rfl).1 0 hmem⟩

end BaseWebService.Grpc
