import Mathlib.Logic.Function.Basic
import BaseWebService.Library.Prog
import BaseWebService.Library.PyText

/-!
# One Redis hash, as the breaker uses it

The commands on a single hash key with an expiry. Redis keeps every field as text, and
`decode_responses=True` hands that text back; numbers are written as their decimal text.
The server and its clients read one millisecond clock.
-/

namespace BaseWebService.Redis

open Library

/-- A hash that exists: its fields, and the time its `EXPIRE` lapses if it has one. -/
structure Hash where
  fields : String → Option String
  deadline : Option Int

/-- The clock, in milliseconds, and what is stored under the key. -/
structure HashServer where
  now : Int
  key : Option Hash

inductive HashCmd where
  | hget (field : String)
  | hset (mapping : List (String × String))
  | hincrby (field : String) (amount : Int)
  | expire (seconds : Int)
  | time

/-- `HINCRBY` answers with an error when the field is not the text of a number. -/
def HashCmd.Reply : HashCmd → Type
  | .hget _ => Option String
  | .hset _ => Unit
  | .hincrby _ _ => Option Int
  | .expire _ => Unit
  | .time => Int

def Hash.set (h : Hash) (mapping : List (String × String)) : Hash :=
  { h with fields := mapping.foldl (fun f e => Function.update f e.1 (some e.2)) h.fields }

/-- A key that does not exist has no field and is created without an expiry. -/
def Hash.empty : Hash := ⟨fun _ => none, none⟩

namespace HashServer

def hget (s : HashServer) (field : String) : Option String := s.key.bind fun h => h.fields field

def hset (s : HashServer) (mapping : List (String × String)) : HashServer :=
  { s with key := some ((s.key.getD .empty).set mapping) }

def hincrby (s : HashServer) (field : String) (amount : Int) : Option Int × HashServer :=
  match pyInt ((s.hget field).getD "0") with
  | some n => (some (n + amount), s.hset [(field, pyStr (n + amount))])
  | none => (none, s)

def expire (s : HashServer) (seconds : Int) : HashServer :=
  { s with key := s.key.map fun h => { h with deadline := some (s.now + seconds * 1000) } }

/-- One command, executed atomically. -/
def exec : (c : HashCmd) → HashServer → c.Reply × HashServer
  | .hget f, s => (s.hget f, s)
  | .hset m, s => ((), s.hset m)
  | .hincrby f n, s => s.hincrby f n
  | .expire n, s => ((), s.expire n)
  | .time, s => (s.now, s)

/-- No command moves the clock. -/
@[simp] theorem exec_now (c : HashCmd) (s : HashServer) : (exec c s).2.now = s.now := by
  cases c with
  | hincrby f n =>
    simp only [exec, hincrby]
    split <;> rfl
  | _ => rfl

end HashServer

section commands
variable {ε α : Type}

def hget (field : String) : Prog HashCmd HashCmd.Reply ε (Option String) :=
  .perform (HashCmd.hget field)
def hset (mapping : List (String × String)) : Prog HashCmd HashCmd.Reply ε Unit :=
  .perform (HashCmd.hset mapping)
def hincrby (field : String) (amount : Int) : Prog HashCmd HashCmd.Reply ε (Option Int) :=
  .perform (HashCmd.hincrby field amount)
def expire (seconds : Int) : Prog HashCmd HashCmd.Reply ε Unit := .perform (HashCmd.expire seconds)
def hashTime : Prog HashCmd HashCmd.Reply ε Int := .perform HashCmd.time

variable (s : HashServer)

@[simp] theorem run_hget (f : String) (k : Option String → Prog HashCmd HashCmd.Reply ε α) :
    (hget f >>= k).run HashServer.exec s = (k (s.hget f)).run HashServer.exec s := rfl
@[simp] theorem run_hset (m : List (String × String)) (k : Unit → Prog HashCmd HashCmd.Reply ε α) :
    (hset m >>= k).run HashServer.exec s = (k ()).run HashServer.exec (s.hset m) := rfl
@[simp] theorem run_hincrby (f : String) (n : Int)
    (k : Option Int → Prog HashCmd HashCmd.Reply ε α) :
    (hincrby f n >>= k).run HashServer.exec s =
      (k (s.hincrby f n).1).run HashServer.exec (s.hincrby f n).2 := rfl
@[simp] theorem run_hashTime (k : Int → Prog HashCmd HashCmd.Reply ε α) :
    (hashTime >>= k).run HashServer.exec s = (k s.now).run HashServer.exec s := rfl

end commands

end BaseWebService.Redis
