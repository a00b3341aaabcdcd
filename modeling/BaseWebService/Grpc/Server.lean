import Mathlib.Data.Finset.Basic
import BaseWebService.Library.Discipline

/-!
# The gRPC server

`GrpcServer` and `run_server` of `core/grpc_server/server.py`, with `setup_opentelemetry` and
`shutdown_opentelemetry` of `core/grpc_server/otelemetry.py`, as tasks of an event loop. A server is
served until the event it waits for is set, by a signal or by whoever else has the event, or until
the task is cancelled. The loop has one handler for a signal, and whoever adds or removes one does
not ask whose it is.

Every command may raise. Where a server that raises on its way up or down is left, and what becomes
of a handler whose change raises, is open.
-/

namespace BaseWebService.Grpc

open Library

inductive Signal where
  | sigint
  | sigterm
  deriving DecidableEq

inductive Failure where
  | notImplementedError
  | cancelled
  | other (text : String)

/-- What is done for or with a tracer provider, besides making it. -/
inductive Telemetry where
  | addSpanProcessor
  | setTracerProvider
  | instrumentServer
  | instrumentClient
  | shutdown
  | uninstrumentServer
  | uninstrumentClient

/-- Servers and events go by their numbers. Whose handler it is that is added or removed, and who
waits, is written along; `deliver` is the operating system's signal. -/
inductive Command where
  | configureLogging
  | readProvider
  | newProvider
  | telemetry (step : Telemetry)
  | clearProvider
  | newServer
  | start (server : ℕ)
  | newEvent
  | addSignalHandler (server : ℕ) (sig : Signal) (event : ℕ)
  | wait (server event : ℕ)
  | removeSignalHandler (server : ℕ) (sig : Signal)
  | stop (server : ℕ)
  | set (event : ℕ)
  | deliver (sig : Signal)

/-- `readProvider` is replied whether there is one. -/
abbrev Command.Reply : Command → Type
  | .readProvider => Bool
  | .newServer => Except Failure ℕ
  | .newEvent => ℕ
  | .clearProvider | .set _ | .deliver _ => Unit
  | _ => Except Failure Unit

abbrev M := Prog Command Command.Reply Failure
abbrev ServerEvent := Event Command Command.Reply

/-- Whether `_tracer_provider` is set, the servers that have started and not stopped, the events
that are set, and the loop's handlers: for a signal, the server whose handler it is and the event
that it sets. -/
structure ServerStore where
  provider : Bool := false
  servers : ℕ := 0
  up : Finset ℕ := ∅
  events : ℕ := 0
  set : Finset ℕ := ∅
  handlers : Signal → Option (ℕ × ℕ) := fun _ => none

namespace ServerStore

def handle (s : ServerStore) (sig : Signal) (handler : Option (ℕ × ℕ)) : ServerStore :=
  { s with handlers := Function.update s.handlers sig handler }

/-- The handler of the signal is called, if there is one. -/
def signalled (s : ServerStore) (sig : Signal) : ServerStore :=
  match s.handlers sig with
  | none => s
  | some (_, event) => { s with set := insert event s.set }

/-- What an awaited command does in the end. -/
inductive Ends (s : ServerStore) : (c : Command) → c.Reply → ServerStore → Prop where
  | start {server : ℕ} : Ends s (.start server) (.ok ()) { s with up := insert server s.up }
  | startError {server : ℕ} {e : Failure} (begun : Bool) : Ends s (.start server) (.error e)
      (if begun then { s with up := insert server s.up } else s)
  | wait {server event : ℕ} : event ∈ s.set → Ends s (.wait server event) (.ok ()) s
  | waitError {server event : ℕ} {e : Failure} : Ends s (.wait server event) (.error e) s
  | stop {server : ℕ} : Ends s (.stop server) (.ok ()) { s with up := s.up.erase server }
  | stopError {server : ℕ} {e : Failure} (begun : Bool) : Ends s (.stop server) (.error e)
      (if begun then { s with up := s.up.erase server } else s)

inductive Answer (s : ServerStore) : (c : Command) → c.Reply → ServerStore → Prop where
  | ends {c : Command} {r : c.Reply} {t : ServerStore} : Ends s c r t → Answer s c r t
  | configureLogging {r : Except Failure Unit} : Answer s .configureLogging r s
  | readProvider : Answer s .readProvider s.provider s
  | newProvider : Answer s .newProvider (.ok ()) { s with provider := true }
  | newProviderError {e : Failure} : Answer s .newProvider (.error e) s
  | telemetry {step : Telemetry} {r : Except Failure Unit} : Answer s (.telemetry step) r s
  | clearProvider : Answer s .clearProvider () { s with provider := false }
  | newServer : Answer s .newServer (.ok s.servers) { s with servers := s.servers + 1 }
  | newServerError {e : Failure} : Answer s .newServer (.error e) s
  | newEvent : Answer s .newEvent s.events { s with events := s.events + 1 }
  | addSignalHandler {server event : ℕ} {sig : Signal} :
      Answer s (.addSignalHandler server sig event) (.ok ()) (s.handle sig (some (server, event)))
  | addSignalHandlerError {server event : ℕ} {sig : Signal} {e : Failure} (kept : Bool) :
      Answer s (.addSignalHandler server sig event) (.error e)
        (if kept then s else s.handle sig none)
  | removeSignalHandler {server : ℕ} {sig : Signal} :
      Answer s (.removeSignalHandler server sig) (.ok ()) (s.handle sig none)
  | removeSignalHandlerError {server : ℕ} {sig : Signal} {e : Failure} (kept : Bool) :
      Answer s (.removeSignalHandler server sig) (.error e) (if kept then s else s.handle sig none)
  | set {event : ℕ} : Answer s (.set event) () { s with set := insert event s.set }
  | deliver {sig : Signal} : Answer s (.deliver sig) () (s.signalled sig)

/-- An event that is set is not waited for. -/
inductive Suspends (s : ServerStore) : Command → Prop where
  | start {server : ℕ} : Suspends s (.start server)
  | wait {server event : ℕ} : event ∉ s.set → Suspends s (.wait server event)
  | stop {server : ℕ} : Suspends s (.stop server)

end ServerStore

def serverKernel : Kernel Command Command.Reply ServerStore where
  answer _ c s r t := s.Answer c r t
  suspend _ c s t := s.Suspends c ∧ t = s
  resume _ c s r t := s.Ends c r t

def ask (c : Command) : M c.Reply := Prog.perform c

def orRaise {α : Type} : Except Failure α → M α := Prog.rethrow

/-! ## The code -/

namespace GrpcServer

def start (server : ℕ) : M Unit := do orRaise (← ask (.start server))

def stop (server : ℕ) : M Unit := do orRaise (← ask (.stop server))

/-- The signals among these that a handler has been added for. -/
def addSignalHandlers (server event : ℕ) : List Signal → M (List Signal)
  | [] => return []
  | sig :: signals => do
    match ← ask (.addSignalHandler server sig event) with
    | .ok _ => return sig :: (← addSignalHandlers server event signals)
    | .error .notImplementedError => addSignalHandlers server event signals
    | .error e => throw e

def removeSignalHandlers (server : ℕ) : List Signal → M Unit
  | [] => return ()
  | sig :: signals => do
    orRaise (← ask (.removeSignalHandler server sig))
    removeSignalHandlers server signals

/-- The event that is waited for, and the signals that set it. -/
def stopEvent (server : ℕ) : Option ℕ → M (ℕ × List Signal)
  | some event => return (event, [])
  | none => do
    let event ← ask .newEvent
    return (event, ← addSignalHandlers server event [.sigint, .sigterm])

def serve (server : ℕ) (event : Option ℕ) : M Unit := do
  start server
  let (event, registered) ← stopEvent server event
  Prog.tryFinally (do orRaise (← ask (.wait server event))) do
    removeSignalHandlers server registered
    stop server

end GrpcServer

/-- `settings.opentelemetry_endpoint`, whether it is set. -/
structure Settings where
  opentelemetryEndpoint : Bool

/-- The statements of a block, each of which may raise. -/
def telemetry : List Telemetry → M Unit
  | [] => return ()
  | step :: steps => do
    orRaise (← ask (.telemetry step))
    telemetry steps

def setupOpentelemetry (settings : Settings) : M Bool := do
  if !settings.opentelemetryEndpoint then return false
  else if ← ask .readProvider then return false
  else
    orRaise (← ask .newProvider)
    telemetry [.addSpanProcessor, .setTracerProvider, .instrumentServer, .instrumentClient]
    return true

def shutdownOpentelemetry : M Unit := do
  if ← ask .readProvider then
    telemetry [.shutdown, .uninstrumentServer, .uninstrumentClient]
    ask .clearProvider

def runServer (settings : Settings) : M Unit := do
  orRaise (← ask .configureLogging)
  let _ ← setupOpentelemetry settings
  Prog.tryFinally (do
    let server ← orRaise (← ask .newServer)
    GrpcServer.serve server none) shutdownOpentelemetry

/-- `GrpcServer().serve(stop_event)`, with an event or without one; `run_server`; and whoever sets
an event or sends a signal. -/
inductive Call where
  | serve (event : Option ℕ)
  | runServer
  | set (event : ℕ)
  | deliver (sig : Signal)

abbrev Call.Value : Call → Type := fun _ => Unit

def Call.body (settings : Settings) : (call : Call) → M call.Value
  | .serve event => do
    let server ← orRaise (← ask .newServer)
    GrpcServer.serve server event
  | .runServer => Grpc.runServer settings
  | .set event => ask (.set event)
  | .deliver sig => ask (.deliver sig)

abbrev ServerLoop := Loop Command Command.Reply Failure ServerStore Call.Value
abbrev ServerLabel := Loop.Label Command Command.Reply Failure Call.Value

abbrev ServerStep (settings : Settings) : ServerLoop → ServerLabel → ServerLoop → Prop :=
  Loop.Step serverKernel (Call.body settings)

end BaseWebService.Grpc
