import Mathlib.Logic.Function.Basic
import Mathlib.Tactic.Common

/-!
# Redis strings with an expiry

The keys a lock needs: `SET key value NX EX`, `DEL`, and the clock that lets keys expire.
-/

namespace BaseWebService.Redis

/-- A stored text and the time, in milliseconds, at which it is gone. -/
structure Entry where
  value : String
  deadline : Int
  deriving DecidableEq, Repr

/-- The clock, in milliseconds, and the keys that exist. -/
structure StringServer where
  now : Int
  entries : String → Option Entry

namespace StringServer

def empty (now : Int) : StringServer := ⟨now, fun _ => none⟩

/-- `SET key value NX EX seconds`: whether the key was free. -/
def setNx (s : StringServer) (key value : String) (seconds : Int) : Bool × StringServer :=
  match s.entries key with
  | some _ => (false, s)
  | none =>
    (true, { s with
      entries := Function.update s.entries key (some ⟨value, s.now + seconds * 1000⟩) })

/-- `DEL key`. -/
def delete (s : StringServer) (key : String) : StringServer :=
  { s with entries := Function.update s.entries key none }

/-- The clock moves on to `now` and the keys that are due expire. -/
def advance (s : StringServer) (now : Int) : StringServer where
  now := now
  entries key := (s.entries key).filter fun e => now < e.deadline

variable {s : StringServer} {key : String}

theorem setNx_of_none (h : s.entries key = none) (value : String) (seconds : Int) :
    s.setNx key value seconds = (true, { s with
      entries := Function.update s.entries key (some ⟨value, s.now + seconds * 1000⟩) }) := by
  rw [setNx, h]

/-- `NX`: a key that exists is left as it is. -/
theorem setNx_of_some {e : Entry} (h : s.entries key = some e) (value : String) (seconds : Int) :
    s.setNx key value seconds = (false, s) := by
  rw [setNx, h]

@[simp] theorem setNx_now (value : String) (seconds : Int) :
    (s.setNx key value seconds).2.now = s.now := by
  unfold setNx
  split <;> rfl

@[simp] theorem delete_now : (s.delete key).now = s.now := rfl

end StringServer

end BaseWebService.Redis
