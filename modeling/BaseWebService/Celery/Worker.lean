import BaseWebService.Library.Processes
import BaseWebService.Library.PyText

/-!
# The processes of a Celery worker

`app/celery/celery.py`, with `core/infra/redis/client.py`, `core/infra/redis/lifespan.py` and
`core/db/engine_routing.py` as its processes use them, and `MongoClientSingleton` as one process
sees it.

A worker starts in one process, the main one. With a prefork pool that process only forks the
others, and the signals of a child process and all tasks are handled in the children; with any other
pool there is only the main process. Event loops, connection pools, clients and connections are
known by the process that has asked for them and by their number in it, so that a copy in the memory
of another process is still the same one.

A task is a coroutine that uses connections in any order, may catch what is raised, and may call
`run_async` itself.

Of Celery it is assumed that only a pool whose name holds `prefork` forks, and that it then handles
no task in the main process; a pool of threads, whose tasks run side by side, is left out. Of
SQLAlchemy it is assumed that a disposal that raises nothing closes all connections of its engine.
-/

namespace BaseWebService.Celery

open Library

/-- Something that a process has asked the operating system or a library for. -/
structure Handle where
  process : ℕ
  number : ℕ
  deriving DecidableEq

inductive Engine where
  | write
  | read
  deriving DecidableEq

inductive Resource where
  | redis (pool : Handle)
  | mongo (client : Handle)
  | engine (engine : Engine)
  deriving DecidableEq

/-- An open connection, with the event loop that it was opened on. -/
structure Connection where
  id : Handle
  resource : Resource
  loop : Handle
  deriving DecidableEq

structure RedisClient where
  pool : Handle
  deriving DecidableEq

/-- An exception: a `RuntimeError` of this code or of the event loop, or one of a library. -/
inductive Failure where
  | runtimeError (text : String)
  | raised (text : String)

inductive Command where
  | getpid
  | isBootstrapped (pid : ℕ)
  | addBootstrapped (pid : ℕ)
  | configureLogging
  | setupOpentelemetry
  | readWorkerLoop
  | writeWorkerLoop (value : Option Handle)
  | newEventLoop
  | isClosed (loop : Handle)
  | isRunning (loop : Handle)
  | enter (loop : Handle)
  | leave
  | shutdownAsyncgens
  | closeLoop (loop : Handle)
  | readPool
  | writePool (value : Option Handle)
  | readClient
  | writeClient (value : Option RedisClient)
  | poolFromUrl (url : String)
  | aclose (client : RedisClient)
  | disconnect (pool : Handle)
  | readMongo
  | writeMongo (value : Option Handle)
  | newMongo
  | closeMongo (client : Handle)
  | dispose (engine : Engine)
  | connect (resource : Resource)

abbrev Command.Reply : Command → Type
  | .getpid => ℕ
  | .isBootstrapped _ | .isClosed _ | .isRunning _ => Bool
  | .readWorkerLoop | .readPool | .readMongo => Option Handle
  | .readClient => Option RedisClient
  | .newEventLoop | .poolFromUrl _ | .newMongo => Except Failure Handle
  | .configureLogging | .setupOpentelemetry | .enter _ | .shutdownAsyncgens | .closeLoop _
  | .aclose _ | .disconnect _ | .closeMongo _ | .dispose _ => Except Failure Unit
  | .connect _ => Except Failure (Handle × Connection)
  | _ => Unit

abbrev M := Prog Command Command.Reply Failure
abbrev CeleryEvent := Event Command Command.Reply

/-- The memory of a process: the module variables `_WORKER_LOOP` and `_BOOTSTRAPPED_PIDS`, the class
variables of `RedisCacheClient` and `MongoClientSingleton`, the loops it has closed, the one that
runs, its open connections, and how many handles it has been given. -/
structure Memory where
  pid : ℕ
  made : ℕ := 0
  workerLoop : Option Handle := none
  bootstrappedPids : List ℕ := []
  closed : List Handle := []
  running : Option Handle := none
  pool : Option Handle := none
  client : Option RedisClient := none
  mongo : Option Handle := none
  connections : List Connection := []

namespace Memory

/-- Connections may be closed at any time by the other side. -/
def keep (m : Memory) (connections : List Connection) : Memory := { m with connections }

def drop (m : Memory) (resource : Resource) : Memory :=
  m.keep (m.connections.filter fun x => x.resource ≠ resource)

def next (m : Memory) (i : ℕ) : Handle := ⟨i, m.made⟩

def advance (m : Memory) : Memory := { m with made := m.made + 1 }

/-- What a command does in process `i`. -/
inductive Answer (i : ℕ) (m : Memory) : (c : Command) → c.Reply → Memory → Prop where
  | getpid : Answer i m .getpid m.pid m
  | isBootstrapped {pid : ℕ} :
      Answer i m (.isBootstrapped pid) (decide (pid ∈ m.bootstrappedPids)) m
  | addBootstrapped {pid : ℕ} : Answer i m (.addBootstrapped pid) ()
      { m with bootstrappedPids := pid :: m.bootstrappedPids }
  | configureLogging {r : Except Failure Unit} : Answer i m .configureLogging r m
  | setupOpentelemetry {r : Except Failure Unit} : Answer i m .setupOpentelemetry r m
  | readWorkerLoop : Answer i m .readWorkerLoop m.workerLoop m
  | writeWorkerLoop {value : Option Handle} :
      Answer i m (.writeWorkerLoop value) () { m with workerLoop := value }
  | newEventLoop : Answer i m .newEventLoop (.ok (m.next i)) m.advance
  | newEventLoopError {text : String} : Answer i m .newEventLoop (.error (.raised text)) m
  | isClosed {loop : Handle} : Answer i m (.isClosed loop) (decide (loop ∈ m.closed)) m
  | isRunning {loop : Handle} :
      Answer i m (.isRunning loop) (decide (m.running = some loop)) m
  | enter {loop : Handle} : loop ∉ m.closed → m.running = none →
      Answer i m (.enter loop) (.ok ()) { m with running := some loop }
  | enterClosed {loop : Handle} : loop ∈ m.closed →
      Answer i m (.enter loop) (.error (.runtimeError "Event loop is closed")) m
  | enterRunning {loop : Handle} : m.running ≠ none →
      Answer i m (.enter loop) (.error (.runtimeError "This event loop is already running")) m
  | leave : Answer i m .leave () { m with running := none }
  | shutdownAsyncgens {r : Except Failure Unit} : Answer i m .shutdownAsyncgens r m
  | closeLoop {loop : Handle} : m.running ≠ some loop →
      Answer i m (.closeLoop loop) (.ok ()) { m with closed := loop :: m.closed }
  | closeRunning {loop : Handle} : m.running = some loop →
      Answer i m (.closeLoop loop) (.error (.runtimeError "Cannot close a running event loop")) m
  | readPool : Answer i m .readPool m.pool m
  | writePool {value : Option Handle} : Answer i m (.writePool value) () { m with pool := value }
  | readClient : Answer i m .readClient m.client m
  | writeClient {value : Option RedisClient} :
      Answer i m (.writeClient value) () { m with client := value }
  | poolFromUrl {url : String} : Answer i m (.poolFromUrl url) (.ok (m.next i)) m.advance
  | poolFromUrlError {url text : String} :
      Answer i m (.poolFromUrl url) (.error (.raised text)) m
  | aclose {client : RedisClient} {r : Except Failure Unit} {kept : List Connection} :
      kept ⊆ m.connections → Answer i m (.aclose client) r (m.keep kept)
  | disconnect {pool : Handle} : Answer i m (.disconnect pool) (.ok ()) (m.drop (.redis pool))
  | disconnectError {pool : Handle} {e : Failure} {kept : List Connection} :
      kept ⊆ m.connections → Answer i m (.disconnect pool) (.error e) (m.keep kept)
  | readMongo : Answer i m .readMongo m.mongo m
  | writeMongo {value : Option Handle} : Answer i m (.writeMongo value) () { m with mongo := value }
  | newMongo : Answer i m .newMongo (.ok (m.next i)) m.advance
  | newMongoError {text : String} : Answer i m .newMongo (.error (.raised text)) m
  | closeMongo {client : Handle} :
      Answer i m (.closeMongo client) (.ok ()) (m.drop (.mongo client))
  | closeMongoError {client : Handle} {e : Failure} {kept : List Connection} :
      kept ⊆ m.connections → Answer i m (.closeMongo client) (.error e) (m.keep kept)
  | dispose {engine : Engine} :
      Answer i m (.dispose engine) (.ok ()) (m.drop (.engine engine))
  | disposeError {engine : Engine} {e : Failure} {kept : List Connection} :
      kept ⊆ m.connections → Answer i m (.dispose engine) (.error e) (m.keep kept)
  /-- a connection that is open already is used again -/
  | reuse {x : Connection} {loop : Handle} {kept : List Connection} : m.running = some loop →
      x ∈ m.connections → kept ⊆ m.connections →
      Answer i m (.connect x.resource) (.ok (loop, x)) (m.keep kept)
  /-- a connection is opened on the loop that runs -/
  | connect {resource : Resource} {loop : Handle} {kept : List Connection} :
      m.running = some loop → kept ⊆ ⟨m.next i, resource, loop⟩ :: m.connections →
      Answer i m (.connect resource) (.ok (loop, ⟨m.next i, resource, loop⟩)) (m.advance.keep kept)
  | connectError {resource : Resource} {e : Failure} {kept : List Connection} :
      kept ⊆ m.connections → Answer i m (.connect resource) (.error e) (m.keep kept)

end Memory

/-- What a command does in process `i` when all goes well. -/
def Memory.reply (i : ℕ) (m : Memory) : (c : Command) → c.Reply × Memory
  | .getpid => (m.pid, m)
  | .isBootstrapped pid => (decide (pid ∈ m.bootstrappedPids), m)
  | .addBootstrapped pid => ((), { m with bootstrappedPids := pid :: m.bootstrappedPids })
  | .configureLogging | .setupOpentelemetry | .shutdownAsyncgens => (.ok (), m)
  | .readWorkerLoop => (m.workerLoop, m)
  | .writeWorkerLoop value => ((), { m with workerLoop := value })
  | .newEventLoop | .poolFromUrl _ | .newMongo => (.ok (m.next i), m.advance)
  | .isClosed loop => (decide (loop ∈ m.closed), m)
  | .isRunning loop => (decide (m.running = some loop), m)
  | .enter loop =>
    if loop ∈ m.closed then (.error (.runtimeError "Event loop is closed"), m)
    else if m.running = none then (.ok (), { m with running := some loop })
    else (.error (.runtimeError "This event loop is already running"), m)
  | .leave => ((), { m with running := none })
  | .closeLoop loop =>
    if m.running = some loop then
      (.error (.runtimeError "Cannot close a running event loop"), m)
    else (.ok (), { m with closed := loop :: m.closed })
  | .readPool => (m.pool, m)
  | .writePool value => ((), { m with pool := value })
  | .readClient => (m.client, m)
  | .writeClient value => ((), { m with client := value })
  | .aclose _ => (.ok (), m.keep m.connections)
  | .disconnect pool => (.ok (), m.drop (.redis pool))
  | .readMongo => (m.mongo, m)
  | .writeMongo value => ((), { m with mongo := value })
  | .closeMongo client => (.ok (), m.drop (.mongo client))
  | .dispose engine => (.ok (), m.drop (.engine engine))
  | .connect resource => match m.running with
    | none => (.error (.raised "no running event loop"), m.keep m.connections)
    | some loop => (.ok (loop, ⟨m.next i, resource, loop⟩),
        m.advance.keep (⟨m.next i, resource, loop⟩ :: m.connections))

theorem Memory.answer_reply (i : ℕ) (c : Command) (m : Memory) :
    m.Answer i c (m.reply i c).1 (m.reply i c).2 := by
  cases c with
  | enter loop =>
    by_cases hclosed : loop ∈ m.closed
    · simpa only [reply, if_pos hclosed] using .enterClosed hclosed
    · by_cases hidle : m.running = none
      · simpa only [reply, if_neg hclosed, if_pos hidle] using .enter hclosed hidle
      · simpa only [reply, if_neg hclosed, if_neg hidle] using .enterRunning hidle
  | closeLoop loop =>
    by_cases hrunning : m.running = some loop
    · simpa only [reply, if_pos hrunning] using .closeRunning hrunning
    · simpa only [reply, if_neg hrunning] using .closeLoop hrunning
  | connect resource =>
    cases hrunning : m.running with
    | none => simpa only [reply, hrunning] using .connectError (List.Subset.refl _)
    | some loop => simpa only [reply, hrunning] using .connect hrunning (List.Subset.refl _)
  | aclose client => exact .aclose (List.Subset.refl _)
  | _ => constructor

/-- No process waits for another. -/
def kernel : Kernel Command Command.Reply Memory where
  answer i c m r t := m.Answer i c r t
  suspend _ _ _ _ := False
  resume _ _ _ _ _ := False

def ask (c : Command) : M c.Reply := Prog.perform c

def orRaise {α : Type} : Except Failure α → M α
  | .ok a => .ret a
  | .error e => .raise e

/-! ## Redis, Mongo and the database -/

namespace RedisCacheClient

def bindPool (pool : Option Handle) : M Unit := do
  ask (.writePool pool)
  ask (.writeClient none)

def isEnabled : M Bool := do return (← ask .readPool).isSome

def getClient : M RedisClient := do
  match ← ask .readPool with
  | none => throw (.runtimeError "Redis not initialized")
  | some pool =>
    match ← ask .readClient with
    | some client => return client
    | none =>
      ask (.writeClient (some ⟨pool⟩))
      return ⟨pool⟩

/-- The second half of `close`. -/
def closePool : M Unit := do
  match ← ask .readPool with
  | none => pure ()
  | some pool =>
    orRaise (← ask (.disconnect pool))
    ask (.writePool none)

def close : M Unit := do
  match ← ask .readClient with
  | none => pure ()
  | some client =>
    orRaise (← ask (.aclose client))
    ask (.writeClient none)
  closePool

end RedisCacheClient

namespace MongoClientSingleton

def getClient : M Handle := do
  match ← ask .readMongo with
  | some client => return client
  | none =>
    let client ← orRaise (← ask .newMongo)
    ask (.writeMongo (some client))
    return client

def close : M Unit := do
  match ← ask .readMongo with
  | none => pure ()
  | some client => orRaise (← ask (.closeMongo client))
  ask (.writeMongo none)

end MongoClientSingleton

/-- `settings.redis_url`, if it is not empty. -/
structure Settings where
  redisUrl : Option String

/-- Called without an application. -/
def initRedis (settings : Settings) : M Unit := do
  match settings.redisUrl with
  | none => RedisCacheClient.bindPool none
  | some url =>
    let redisPool ← orRaise (← ask (.poolFromUrl url))
    RedisCacheClient.bindPool (some redisPool)

def shutdownRedisClient : M Unit := RedisCacheClient.close

/-- What disposing of an engine raises, and that it takes too long, is logged only. -/
def disposeEngines : M Unit := do
  let _ ← ask (.dispose .write)
  let _ ← ask (.dispose .read)

/-! ## The worker -/

/-- The first half of `get_worker_loop`. -/
def makeWorkerLoop : M Handle := do
  let loop ← orRaise (← ask .newEventLoop)
  ask (.writeWorkerLoop (some loop))
  return loop

def getWorkerLoop : M Handle := do
  match ← ask .readWorkerLoop with
  | none => makeWorkerLoop
  | some loop => if ← ask (.isClosed loop) then makeWorkerLoop else return loop

/-- `loop.run_until_complete`. -/
def runUntilComplete (loop : Handle) (coro : M Unit) : M Unit := do
  orRaise (← ask (.enter loop))
  let ended ← coro.attempt
  ask .leave
  orRaise ended

/-- `init_db` imports what the module has imported already. -/
def bootstrapWorker (settings : Settings) : M Unit := do
  let pid ← ask .getpid
  if ← ask (.isBootstrapped pid) then
    return ()
  else
    orRaise (← ask .configureLogging)
    orRaise (← ask .setupOpentelemetry)
    let _ ← getWorkerLoop
    initRedis settings
    ask (.addBootstrapped pid)

/-- `"prefork" in pool_cls.lower()`. -/
def isPrefork (poolCls : String) : Bool :=
  pyContains (String.ofList (poolCls.toList.map Char.toLower)) "prefork"

def initWorker (settings : Settings) (poolCls : String) : M Unit :=
  if isPrefork poolCls then do orRaise (← ask .configureLogging) else bootstrapWorker settings

def initWorkerProcess (settings : Settings) : M Unit := bootstrapWorker settings

/-- The body of the `if` of `shutdown_worker_process`. -/
def shutdownLoop (loop : Handle) : M Unit := do
  runUntilComplete loop shutdownRedisClient
  MongoClientSingleton.close
  runUntilComplete loop disposeEngines
  runUntilComplete loop (do orRaise (← ask .shutdownAsyncgens))
  orRaise (← ask (.closeLoop loop))

def shutdownWorkerProcess : M Unit := do
  match ← ask .readWorkerLoop with
  | none => pure ()
  | some loop => if ← ask (.isClosed loop) then pure () else shutdownLoop loop
  ask (.writeWorkerLoop none)

def runAsync (coro : M Unit) : M Unit := do
  let loop ← getWorkerLoop
  if ← ask (.isRunning loop) then
    throw (.runtimeError "Celery worker event loop is already running")
  else
    runUntilComplete loop coro

/-! ## Tasks -/

/-- What a coroutine may use. -/
inductive Use where
  | redis
  | mongo
  | engine (engine : Engine)

def Use.run : Use → M (Handle × Connection)
  | .redis => do
    let client ← RedisCacheClient.getClient
    orRaise (← ask (.connect (.redis client.pool)))
  | .mongo => do
    let client ← MongoClientSingleton.getClient
    orRaise (← ask (.connect (.mongo client)))
  | .engine e => do orRaise (← ask (.connect (.engine e)))

/-- A coroutine goes on from each of its uses, whether it was raised there or not. -/
inductive Coroutine : M Unit → Prop where
  | ret : Coroutine (.ret ())
  | raise {e : Failure} : Coroutine (.raise e)
  | use {u : Use} {k : Except Failure (Handle × Connection) → M Unit} :
      (∀ r, Coroutine (k r)) → Coroutine (u.run.attempt >>= k)
  | isEnabled {k : Bool → M Unit} :
      (∀ r, Coroutine (k r)) → Coroutine (RedisCacheClient.isEnabled >>= k)
  | runAsync {coro : M Unit} {k : Except Failure Unit → M Unit} : Coroutine coro →
      (∀ r, Coroutine (k r)) → Coroutine ((runAsync coro).attempt >>= k)

inductive Call where
  | initWorker
  | initWorkerProcess
  | shutdownWorkerProcess
  | runAsync (coro : M Unit) (task : Coroutine coro)

def Call.body (settings : Settings) (poolCls : String) : Call → M Unit
  | .initWorker => Celery.initWorker settings poolCls
  | .initWorkerProcess => Celery.initWorkerProcess settings
  | .shutdownWorkerProcess => Celery.shutdownWorkerProcess
  | .runAsync coro _ => Celery.runAsync coro

/-- `worker_init` is sent in the main process; all others go to the children, if the pool has
any: that it has some only if its name holds `prefork` is an assumption about Celery. -/
def Call.AllowedIn (poolCls : String) (i : ℕ) : Call → Prop
  | .initWorker => i = 0
  | _ => isPrefork poolCls → i ≠ 0

/-- A child has the memory of the main process, under a number of its own. Only the main process of
a prefork pool forks. -/
def Forks (poolCls : String) (parent _child : ℕ) (m m' : Memory) : Prop :=
  isPrefork poolCls ∧ parent = 0 ∧ ∃ pid, m' = { m with pid, made := 0 }

def worker (settings : Settings) (poolCls : String) :
    Machine Command Command.Reply Failure Memory Call fun _ => Unit where
  kernel := kernel
  body := Call.body settings poolCls
  calls := fun i b => b.AllowedIn poolCls i
  forks := Forks poolCls

abbrev WorkerProcess := Process Command Command.Reply Failure Memory (fun _ : Call => Unit)
abbrev Worker := Processes Command Command.Reply Failure Memory (fun _ : Call => Unit)
abbrev WorkerLabel := Processes.Label Command Command.Reply Failure (fun _ : Call => Unit)

abbrev WorkerStep (settings : Settings) (poolCls : String) :
    Worker → WorkerLabel → Worker → Prop :=
  Processes.Step (worker settings poolCls)

/-- The main process, before anything is called. -/
def start (pid : ℕ) : Worker := Processes.fresh { pid }

end BaseWebService.Celery
