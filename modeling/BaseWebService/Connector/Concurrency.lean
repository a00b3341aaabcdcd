import BaseWebService.Library.AsyncSemaphore
import BaseWebService.Library.Discipline
import BaseWebService.Connector.Basic

/-!
# The limit on concurrent HTTP calls

`core/infra/connectors/concurrency.py`, and the `async with get_http_call_semaphore()` around the
HTTP call of `BaseAsyncHttpConnector.request`. Every `await` of a request may hand the event loop to
another one, and may end with a cancellation. The semaphore is made when it is first asked for and
forgotten by `reset_http_call_semaphore`, so there may be several of them with calls under way.
-/

namespace BaseWebService.Connector

open Library

structure ConcurrencySettings where
  httpMaxConcurrentRequests : ℤ

namespace Concurrency

/-- `cancel` is `task.cancel()`, by whoever asks for it. -/
inductive Command (V : Type) where
  | readSemaphore
  | newSemaphore (value : ℤ)
  | writeSemaphore (value : Option ℕ)
  | acquire (sem : ℕ)
  | release (sem : ℕ)
  | await (c : Cmd V)
  | cancel (task : ℕ)

/-- `acquire` replies whether there is a permit, `await` with nothing if it is cancelled. -/
abbrev Command.Reply {V : Type} : Command V → Type
  | .readSemaphore => Option ℕ
  | .newSemaphore _ => Except String ℕ
  | .acquire _ => Bool
  | .await c => Option c.Reply
  | _ => Unit

inductive Failure where
  | cancelled
  | request (e : RequestError)

abbrev M (V α : Type) := Prog (Command V) Command.Reply Failure α

/-- `_HTTP_CALL_SEMAPHORE`, and the semaphores by their numbers. -/
structure CallStore where
  current : Option ℕ := none
  semaphores : ℕ → AsyncSemaphore := fun _ => ⟨0, []⟩
  count : ℕ := 0

def CallStore.put (s : CallStore) (sem : ℕ) (value : AsyncSemaphore) : CallStore :=
  { s with semaphores := Function.update s.semaphores sem value }

namespace CallStore
variable {V : Type} (s : CallStore)

inductive Answer : (c : Command V) → c.Reply → CallStore → Prop where
  | readSemaphore : Answer .readSemaphore s.current s
  | newSemaphore {value : ℕ} : Answer (.newSemaphore value) (.ok s.count)
      { s.put s.count ⟨value, []⟩ with count := s.count + 1 }
  | newSemaphoreError {value : ℤ} : value < 0 →
      Answer (.newSemaphore value) (.error "Semaphore initial value must be >= 0") s
  | writeSemaphore {value : Option ℕ} :
      Answer (.writeSemaphore value) () { s with current := value }
  | acquire {sem : ℕ} : ¬ (s.semaphores sem).Locked →
      Answer (.acquire sem) true (s.put sem (s.semaphores sem).take)
  | release {sem : ℕ} : Answer (.release sem) () (s.put sem (s.semaphores sem).release)
  | await {c : Cmd V} {r : c.Reply} : Answer (.await c) (some r) s
  | cancel {task : ℕ} : Answer (.cancel task) ()
      { s with semaphores := fun sem => (s.semaphores sem).cancel task }

inductive Suspend (i : ℕ) : Command V → CallStore → Prop where
  | acquire {sem : ℕ} : (s.semaphores sem).Locked →
      Suspend i (.acquire sem) (s.put sem ((s.semaphores sem).wait i))
  | await {c : Cmd V} : Suspend i (.await c) s

inductive Resume (i : ℕ) : (c : Command V) → c.Reply → CallStore → Prop where
  | acquire {sem : ℕ} {taken : Bool} {t : AsyncSemaphore} : (s.semaphores sem).Leaves i taken t →
      Resume i (.acquire sem) taken (s.put sem t)
  | await {c : Cmd V} {r : Option c.Reply} : Resume i (.await c) r s

end CallStore

def callKernel (V : Type) : Kernel (Command V) Command.Reply CallStore where
  answer _ c s r t := s.Answer c r t
  suspend i c s t := s.Suspend i c t
  resume i c s r t := s.Resume i c r t

/-! ## The functions -/

section functions
variable {V : Type} (settings : ConcurrencySettings)

def ask (c : Command V) : M V c.Reply := Prog.perform c

/-- An `await` that is cancelled raises. -/
def await (c : Cmd V) : M V c.Reply := do
  match ← ask (.await c) with
  | none => throw .cancelled
  | some r => return r

/-- `get_http_call_semaphore`, or the text of the `ValueError` it raises. -/
def getHttpCallSemaphore : M V (Except String (Option ℕ)) := do
  match ← ask .readSemaphore with
  | none =>
    match ← ask (.newSemaphore settings.httpMaxConcurrentRequests) with
    | .error text => return .error text
    | .ok sem =>
      ask (.writeSemaphore (some sem))
      return .ok (← ask .readSemaphore)
  | some _ => return .ok (← ask .readSemaphore)

def resetHttpCallSemaphore : M V Unit := ask (.writeSemaphore none)

/-- `async with sem: body` -/
def withSemaphore {α : Type} (sem : ℕ) (body : M V α) : M V α := do
  if ← ask (.acquire sem) then
    let value ← body.handle fun e => do
      ask (.release sem)
      throw e
    ask (.release sem)
    return value
  else throw .cancelled

/-- An exception that is raised before the call is made. -/
def unsent (text : String) : Attempt := ⟨.otherException text, 0, false⟩

/-- `async with get_http_call_semaphore(): response = await self._client.request(**kwargs)` -/
def httpCall (kwargs : RequestKwargs V) : M V Attempt := do
  match ← getHttpCallSemaphore settings with
  | .error text => return unsent text
  | .ok none => return unsent "'NoneType' object is no context manager"
  | .ok (some sem) => withSemaphore sem (await (.send kwargs))

/-- What a command of `request` is on the event loop. -/
def perform : (c : Cmd V) → M V c.Reply
  | .send kwargs => httpCall settings kwargs
  | .allowRequest => await .allowRequest
  | .recordTimeout => await .recordTimeout
  | .recordFailure => await .recordFailure
  | .recordSuccess => await .recordSuccess

/-- `BaseAsyncHttpConnector.request` on the event loop. -/
def request (c : BaseAsyncHttpConnector V) (r : Request V) : M V CustomResponse :=
  (c.request r).translate (perform settings) .request

end functions

/-! ## The calls -/

/-- What may be called, by anyone and at any time. -/
inductive Call (V : Type) where
  | request (c : BaseAsyncHttpConnector V) (r : Request V)
  | resetHttpCallSemaphore
  | cancel (task : ℕ)

abbrev Call.Value {V : Type} : Call V → Type
  | .request .. => CustomResponse
  | _ => Unit

def Call.body {V : Type} (settings : ConcurrencySettings) : (call : Call V) → M V call.Value
  | .request c r => Concurrency.request settings c r
  | .resetHttpCallSemaphore => Concurrency.resetHttpCallSemaphore
  | .cancel task => ask (.cancel task)

abbrev CallLoop (V : Type) := Loop (Command V) Command.Reply Failure CallStore (Call.Value (V := V))
abbrev CallLabel (V : Type) := Loop.Label (Command V) Command.Reply Failure (Call.Value (V := V))

abbrev CallStep {V : Type} (settings : ConcurrencySettings) :
    CallLoop V → CallLabel V → CallLoop V → Prop :=
  Loop.Step (callKernel V) (Call.body settings)

end Concurrency

end BaseWebService.Connector
