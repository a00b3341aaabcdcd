import Mathlib.Data.Int.Notation
import BaseWebService.Library.EventLoop
import BaseWebService.Library.PyDict

/-!
# The shared Mongo client

`MongoClientSingleton` and the collection cache of `MongoSystemEventLogger`, of
`core/infra/system_log/mongo.py`. The class variables are the store; each of their reads and writes
is a command, and so is every call of `motor`, which may raise. The lock is made when it is first
asked for and thrown away by `reset`, so there may be several of them, with tasks queued for each.
-/

namespace BaseWebService.SystemLog

open Library

structure Settings where
  mongoDb : String := "my-app"
  poolSize : ℤ := 100
  mongoUri : String := ""
  mongoTimeoutMs : ℤ := 5000

/-- The arguments of an `AsyncIOMotorClient`. -/
structure ClientOptions where
  uri : String
  maxPoolSize : ℤ
  serverSelectionTimeoutMS : ℤ
  connectTimeoutMS : ℤ
  socketTimeoutMS : ℤ
  waitQueueTimeoutMS : ℤ

/-- A client, by the number of clients made before it. -/
abbrev Client := ℕ

/-- A collection of a client. -/
structure Collection where
  client : Client
  database : String
  table : String
  deriving DecidableEq

/-- A `MongoClientSingleton`. -/
structure Instance where
  client : Client

abbrev CacheKey := String × String

/-- An exception. `attributeError` is that of `None.client`, `runtimeError` that of a lock which is
released without being held. -/
inductive Failure where
  | attributeError
  | runtimeError
  | motor (text : String)

inductive Command where
  | readInstance
  | writeInstance (value : Option Instance)
  | readLock
  | newLock
  | writeLock (value : Option ℕ)
  | acquire (lock : ℕ)
  | release (lock : ℕ)
  | newClient (options : ClientOptions)
  | closeClient (client : Client)
  | readCollection (key : CacheKey)
  | openCollection (client : Client) (database table : String)
  | writeCollection (key : CacheKey) (collection : Collection)
  | clearCollections

abbrev Command.Reply : Command → Type
  | .readInstance => Option Instance
  | .readLock => Option ℕ
  | .newLock => ℕ
  | .release _ => Except Failure Unit
  | .newClient _ => Except Failure Client
  | .closeClient _ => Except Failure Unit
  | .readCollection _ => Option Collection
  | .openCollection .. => Except Failure Collection
  | _ => Unit

abbrev MongoProg (α : Type) := Prog Command Command.Reply Failure α
abbrev MongoEvent := Event Command Command.Reply

/-- The class variables `_instance`, `_lock` and `_collections`, the locks by their numbers, and
how many locks and clients have been made. -/
structure MongoStore where
  current : Option Instance := none
  lock : Option ℕ := none
  collections : List (CacheKey × Collection) := []
  locks : ℕ → AsyncLock := fun _ => {}
  lockCount : ℕ := 0
  clientCount : ℕ := 0

namespace MongoStore

/-- What a command that is answered at once does. The constructor of a client, its `close` and the
choice of a collection may raise. -/
inductive Answer (s : MongoStore) : (c : Command) → c.Reply → MongoStore → Prop where
  | readInstance : Answer s .readInstance s.current s
  | writeInstance {value : Option Instance} :
      Answer s (.writeInstance value) () { s with current := value }
  | readLock : Answer s .readLock s.lock s
  | newLock : Answer s .newLock s.lockCount
      { s with locks := Function.update s.locks s.lockCount {}, lockCount := s.lockCount + 1 }
  | writeLock {value : Option ℕ} : Answer s (.writeLock value) () { s with lock := value }
  | acquire {lock : ℕ} : (s.locks lock).Free → Answer s (.acquire lock) ()
      { s with locks := Function.update s.locks lock (s.locks lock).take }
  | release {lock : ℕ} : (s.locks lock).locked = true → Answer s (.release lock) (.ok ())
      { s with locks := Function.update s.locks lock (s.locks lock).release }
  | releaseError {lock : ℕ} : (s.locks lock).locked = false →
      Answer s (.release lock) (.error .runtimeError) s
  | newClient {options : ClientOptions} : Answer s (.newClient options) (.ok s.clientCount)
      { s with clientCount := s.clientCount + 1 }
  | newClientError {options : ClientOptions} {text : String} :
      Answer s (.newClient options) (.error (.motor text)) s
  | closeClient {client : Client} : Answer s (.closeClient client) (.ok ()) s
  | closeClientError {client : Client} {text : String} :
      Answer s (.closeClient client) (.error (.motor text)) s
  | readCollection {key : CacheKey} :
      Answer s (.readCollection key) (pyGet s.collections key) s
  | openCollection {client : Client} {database table : String} :
      Answer s (.openCollection client database table) (.ok ⟨client, database, table⟩) s
  | openCollectionError {client : Client} {database table text : String} :
      Answer s (.openCollection client database table) (.error (.motor text)) s
  | writeCollection {key : CacheKey} {collection : Collection} :
      Answer s (.writeCollection key collection) ()
        { s with collections := pySet s.collections key collection }
  | clearCollections : Answer s .clearCollections () { s with collections := [] }

/-- Only `acquire` makes a task wait: when the lock is held or others wait for it. -/
inductive Suspend (s : MongoStore) (i : ℕ) : Command → MongoStore → Prop where
  | acquire {lock : ℕ} : ¬ (s.locks lock).Free → Suspend s i (.acquire lock)
      { s with locks := Function.update s.locks lock ((s.locks lock).wait i) }

inductive Resume (s : MongoStore) (i : ℕ) : (c : Command) → c.Reply → MongoStore → Prop where
  | acquire {lock : ℕ} {lock' : AsyncLock} : (s.locks lock).Wakes i lock' →
      Resume s i (.acquire lock) () { s with locks := Function.update s.locks lock lock' }

end MongoStore

def mongoKernel : Kernel Command Command.Reply MongoStore where
  answer _ c s r t := s.Answer c r t
  suspend i c s t := s.Suspend i c t
  resume i c s r t := s.Resume i c r t

def ask (c : Command) : MongoProg c.Reply := Prog.perform c

/-- An exception that a command replies with is raised. -/
def orRaise {α : Type} : Except Failure α → MongoProg α
  | .ok a => .ret a
  | .error e => .raise e

/-! ## The functions -/

/-- `async with lock:` -/
def withLock {α : Type} (lock : ℕ) (body : MongoProg α) : MongoProg α := do
  ask (.acquire lock)
  let value ← body.handle fun e => do
    orRaise (← ask (.release lock))
    throw e
  orRaise (← ask (.release lock))
  return value

namespace MongoClientSingleton

variable (settings : Settings)

/-- `__init__`: the arguments the client is made with. -/
def init (uri : Option String) (maxPoolSize : ℤ) : ClientOptions :=
  let timeoutMs := settings.mongoTimeoutMs
  { uri := (uri.filter (· ≠ "")).getD settings.mongoUri
    maxPoolSize
    serverSelectionTimeoutMS := timeoutMs
    connectTimeoutMS := timeoutMs
    socketTimeoutMS := timeoutMs
    waitQueueTimeoutMS := timeoutMs }

def getLock : MongoProg ℕ := do
  match ← ask .readLock with
  | none =>
    let lock ← ask .newLock
    ask (.writeLock (some lock))
    return lock
  | some lock => return lock

/-- Make the client, unless another task has made it. -/
def createClient (uri : Option String) (maxPoolSize : ℤ) : MongoProg Unit := do
  match ← ask .readInstance with
  | none =>
    let client ← orRaise (← ask (.newClient (init settings uri maxPoolSize)))
    ask (.writeInstance (some ⟨client⟩))
  | some _ => return ()

/-- The first of the two checks, and what it guards. -/
def ensureClient (uri : Option String) (maxPoolSize : ℤ) : MongoProg Unit := do
  match ← ask .readInstance with
  | none => withLock (← getLock) (createClient settings uri maxPoolSize)
  | some _ => return ()

def getClient (uri : Option String) (maxPoolSize : ℤ) : MongoProg Client := do
  ensureClient settings uri maxPoolSize
  match ← ask .readInstance with
  | none => throw .attributeError
  | some instance' => return instance'.client

def reset : MongoProg Unit := do
  ask (.writeInstance none)
  ask (.writeLock none)
  ask .clearCollections

def closeClient : MongoProg Unit := do
  match ← ask .readInstance with
  | none => return ()
  | some instance' => orRaise (← ask (.closeClient instance'.client))

def close : MongoProg Unit := do
  closeClient
  reset

end MongoClientSingleton

/-- The fields of a logger that choose its collection. -/
structure MongoSystemEventLogger where
  database : String
  table : String
  uri : String
  poolSize : ℤ

namespace MongoSystemEventLogger

def init (settings : Settings) (table : String) : MongoSystemEventLogger where
  database := settings.mongoDb
  table := table
  uri := settings.mongoUri
  poolSize := settings.poolSize

variable (settings : Settings) (logger : MongoSystemEventLogger)

def getClient : MongoProg Client :=
  MongoClientSingleton.getClient settings (some logger.uri) logger.poolSize

def getCollection : MongoProg Collection := do
  let cacheKey := (logger.database, logger.table)
  match ← ask (.readCollection cacheKey) with
  | none =>
    let client ← logger.getClient settings
    let collection ← orRaise
      (← ask (.openCollection client logger.database logger.table))
    ask (.writeCollection cacheKey collection)
    return collection
  | some collection => return collection

end MongoSystemEventLogger

/-! ## The calls -/

/-- What may be called, in any order and as often as one likes. -/
inductive Call where
  | getClient (uri : Option String) (maxPoolSize : ℤ)
  | getCollection (logger : MongoSystemEventLogger)
  | reset
  | close
  | clearCollectionCache

abbrev Call.Value : Call → Type
  | .getClient .. => Client
  | .getCollection _ => Collection
  | _ => Unit

def Call.body (settings : Settings) : (call : Call) → MongoProg call.Value
  | .getClient uri maxPoolSize => MongoClientSingleton.getClient settings uri maxPoolSize
  | .getCollection logger => logger.getCollection settings
  | .reset => MongoClientSingleton.reset
  | .close => MongoClientSingleton.close
  | .clearCollectionCache => ask .clearCollections

abbrev MongoLoop := Loop Command Command.Reply Failure MongoStore Call.Value
abbrev MongoLabel := Loop.Label Command Command.Reply Failure Call.Value

/-- What may happen next, with the settings of the process. -/
abbrev MongoStep (settings : Settings) : MongoLoop → MongoLabel → MongoLoop → Prop :=
  Loop.Step mongoKernel (Call.body settings)

end BaseWebService.SystemLog
