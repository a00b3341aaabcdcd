import Mathlib.Tactic
import BaseWebService.Library.Prog

/-!
# Redis sorted sets with optimistic transactions

The commands the rate limiter sends. Every key carries a version that moves with every
change of its value, the loss of the key included; `WATCH` hands the version out and `EXEC`
applies its queue only if the version is still the same. Time is in milliseconds, and every
client reads the server's clock.
-/

namespace BaseWebService.Redis

open Library

/-- A member, drawn by `uuid4`, and its score. -/
abbrev Member := ℕ × Int

/-- What is stored under a key; a key with no member does not exist. -/
structure ZKey where
  members : List Member
  deadline : Option Int
  version : ℕ

/-- `nextUuid` has not been drawn yet. -/
structure ZServer where
  now : Int
  nextUuid : ℕ
  keys : String → ZKey

/-- The commands a transaction queues. The member that `zadd` adds is a fresh `uuid4`; it is
drawn when the transaction executes, since nothing reads it before. -/
inductive Queued where
  | zadd (key : String) (score : Int)
  | expire (key : String) (seconds : Int)

inductive ZCmd where
  | time
  | zremrangebyscore (key : String) (min max : Int)
  | watch (key : String)
  | zcard (key : String)
  | zrange (key : String) (start stop : ℕ)
  | execute (key : String) (version : ℕ) (queue : List Queued)

/-- `WATCH` hands out the version, and `EXEC` says whether the queue was applied. -/
def ZCmd.Reply : ZCmd → Type
  | .time => Int
  | .zremrangebyscore _ _ _ => Unit
  | .watch _ => ℕ
  | .zcard _ => ℕ
  | .zrange _ _ _ => List Member
  | .execute _ _ _ => Bool

namespace ZKey

/-- Keep `rest` of the members; a key that loses its last member is deleted. -/
def keep (k : ZKey) (rest : List Member) : ZKey :=
  if rest.length = k.members.length then k
  else ⟨rest, if rest = [] then none else k.deadline, k.version + 1⟩

def trim (k : ZKey) (min max : Int) : ZKey :=
  k.keep (k.members.filter fun m => !(decide (min ≤ m.2) && decide (m.2 ≤ max)))

/-- Members are kept in the order of their scores. -/
def add (k : ZKey) (m : Member) : ZKey :=
  { k with members := k.members.orderedInsert (fun a b => a.2 ≤ b.2) m, version := k.version + 1 }

def expire (k : ZKey) (deadline : Int) : ZKey :=
  if k.members = [] then k else { k with deadline := some deadline, version := k.version + 1 }

/-- A key whose expiry has lapsed is deleted. -/
def purge (k : ZKey) (now : Int) : ZKey :=
  match k.deadline with
  | some d => if d ≤ now then ⟨[], none, k.version + 1⟩ else k
  | none => k

end ZKey

namespace ZServer

/-- No key exists and the clock stands at `now`. -/
def empty (now : Int) : ZServer := ⟨now, 0, fun _ => ⟨[], none, 0⟩⟩

def set (s : ZServer) (key : String) (k : ZKey) : ZServer :=
  { s with keys := Function.update s.keys key k }

def queued (s : ZServer) : Queued → ZServer
  | .zadd key score =>
    { s.set key ((s.keys key).add (s.nextUuid, score)) with nextUuid := s.nextUuid + 1 }
  | .expire key seconds => s.set key ((s.keys key).expire (s.now + seconds * 1000))

/-- One command, executed atomically. -/
def exec : (c : ZCmd) → ZServer → c.Reply × ZServer
  | .time, s => (s.now, s)
  | .zremrangebyscore key min max, s => ((), s.set key ((s.keys key).trim min max))
  | .watch key, s => ((s.keys key).version, s)
  | .zcard key, s => ((s.keys key).members.length, s)
  | .zrange key start stop, s => (((s.keys key).members.take (stop + 1)).drop start, s)
  | .execute key version queue, s =>
    if (s.keys key).version = version then (true, queue.foldl queued s) else (false, s)

/-- The clock moves on to `now` and the keys that are due expire. -/
def advance (s : ZServer) (now : Int) : ZServer :=
  { s with now := now, keys := fun key => (s.keys key).purge now }

def Passes (s t : ZServer) : Prop := ∃ now, s.now ≤ now ∧ t = s.advance now

end ZServer

/-! ## What can happen to a key -/

/-- Members were lost, or nothing happened. -/
structure ZKey.Shrinks (k k' : ZKey) : Prop where
  sublist : k'.members.Sublist k.members
  version_le : k.version ≤ k'.version
  same : k'.version = k.version → k' = k
  deadline : k'.members ≠ [] → k'.deadline = k.deadline

/-- A member was added and the expiry set. -/
structure ZKey.Admits (k k' : ZKey) (m : Member) (deadline : Int) : Prop where
  perm : k'.members.Perm (m :: k.members)
  version_lt : k.version < k'.version
  deadline : k'.deadline = some deadline

namespace ZKey

theorem Shrinks.refl (k : ZKey) : k.Shrinks k :=
  ⟨List.Sublist.refl _, Nat.le_refl _, fun _ => rfl, fun _ => rfl⟩

theorem Shrinks.length_le {k k' : ZKey} (h : k.Shrinks k') :
    k'.members.length ≤ k.members.length := h.sublist.length_le

/-- Whatever is kept of the members, the version tells if it is not all. -/
theorem keep_shrinks (k : ZKey) {rest : List Member} (h : rest.Sublist k.members) :
    k.Shrinks (k.keep rest) := by
  unfold keep
  split_ifs with hlength hempty
  · exact .refl k
  · exact ⟨hempty ▸ h, Nat.le_succ _, by simp, by simp [hempty]⟩
  · exact ⟨h, Nat.le_succ _, by simp, by simp⟩

theorem keep_members (k : ZKey) {rest : List Member} (h : rest.Sublist k.members) :
    (k.keep rest).members = rest := by
  unfold keep
  split_ifs with hlength
  · exact (h.eq_of_length hlength).symm
  · rfl
  · rfl

theorem trim_shrinks (k : ZKey) (min max : Int) : k.Shrinks (k.trim min max) :=
  k.keep_shrinks List.filter_sublist

/-- `ZREMRANGEBYSCORE` removes the scores between its bounds and no other. -/
theorem mem_trim {k : ZKey} {min max : Int} {m : Member} :
    m ∈ (k.trim min max).members ↔ m ∈ k.members ∧ ¬ (min ≤ m.2 ∧ m.2 ≤ max) := by
  rw [trim, keep_members k List.filter_sublist, List.mem_filter]
  simp [imp_iff_not_or]

/-- An expiry that has lapsed takes all members, and no other does anything. -/
theorem purge_shrinks (k : ZKey) (now : Int) : k.Shrinks (k.purge now) := by
  unfold purge
  split
  · split_ifs
    · exact ⟨List.nil_sublist _, Nat.le_succ _, by simp, by simp⟩
    · exact .refl k
  · exact .refl k

/-- Only a lapsed expiry removes members. -/
theorem mem_purge {k : ZKey} {m : Member} (now : Int) (h : m ∈ k.members) :
    m ∈ (k.purge now).members ∨ ∃ d, k.deadline = some d ∧ d ≤ now := by
  unfold purge
  split
  · rename_i d hd
    split_ifs with hdue
    · exact Or.inr ⟨d, hd, hdue⟩
    · exact Or.inl h
  · exact Or.inl h

/-- A key that has got a member can be given an expiry. -/
theorem add_expire_admits (k : ZKey) (m : Member) (deadline : Int) :
    k.Admits ((k.add m).expire deadline) m deadline := by
  have hne : (k.add m).members ≠ [] := fun hnil =>
    List.cons_ne_nil m k.members
      ((List.perm_orderedInsert _ m k.members).symm.trans (.of_eq hnil)).eq_nil
  have hperm : (k.add m).members.Perm (m :: k.members) := List.perm_orderedInsert _ _ _
  simp only [expire, if_neg hne]
  exact ⟨hperm, by simp [add], rfl⟩

/-- The members stand in the order of their scores. -/
def Ordered (k : ZKey) : Prop := k.members.Pairwise fun a b => a.2 ≤ b.2

/-- Losing members does not change the order of the others. -/
theorem Ordered.of_shrinks {k k' : ZKey} (h : k.Ordered) (hshrinks : k.Shrinks k') : k'.Ordered :=
  List.Pairwise.sublist hshrinks.sublist h

theorem Ordered.add {k : ZKey} (h : k.Ordered) (m : Member) : (k.add m).Ordered := by
  have htotal : Std.Total fun a b : Member => a.2 ≤ b.2 := ⟨fun a b => Int.le_total a.2 b.2⟩
  have htrans : IsTrans Member fun a b => a.2 ≤ b.2 := ⟨fun a b c => Int.le_trans⟩
  exact List.Pairwise.orderedInsert m k.members h

theorem Ordered.expire {k : ZKey} (h : k.Ordered) (deadline : Int) :
    (k.expire deadline).Ordered := by
  unfold ZKey.expire
  split_ifs
  · exact h
  · exact h

end ZKey

/-- What a step can do to the store, seen from one key. -/
inductive ZServer.Change (key : String) (s t : ZServer) : Prop where
  | shrink : s.now ≤ t.now → t.nextUuid = s.nextUuid → (s.keys key).Shrinks (t.keys key) →
      Change key s t
  | commit (score deadline : Int) : t.now = s.now → t.nextUuid = s.nextUuid + 1 →
      (s.keys key).Admits (t.keys key) (s.nextUuid, score) deadline → Change key s t

namespace ZServer

@[simp] theorem set_now (s : ZServer) (key : String) (k : ZKey) : (s.set key k).now = s.now := rfl
@[simp] theorem set_keys_self (s : ZServer) (key : String) (k : ZKey) :
    (s.set key k).keys key = k := Function.update_self ..

/-- No command moves the clock. -/
@[simp] theorem exec_now (c : ZCmd) (s : ZServer) : (exec c s).2.now = s.now := by
  cases c with
  | execute key version queue =>
    have hqueue : ∀ (queue : List Queued) (s : ZServer), (queue.foldl queued s).now = s.now := by
      intro queue
      induction queue with
      | nil => exact fun _ => rfl
      | cons q qs ih =>
        intro s
        rw [List.foldl_cons, ih]
        cases q <;> rfl
    simp only [exec]
    split_ifs
    · exact hqueue queue s
    · rfl
  | _ => rfl

theorem Change.refl (key : String) (s : ZServer) : Change key s s :=
  .shrink (Int.le_refl _) rfl (.refl _)

theorem Change.now_le {key : String} {s t : ZServer} (h : Change key s t) : s.now ≤ t.now := by
  cases h with
  | shrink hnow _ _ => exact hnow
  | commit _ _ hnow _ _ => exact hnow.ge

/-- Versions never go back. -/
theorem Change.version_le {key : String} {s t : ZServer} (h : Change key s t) :
    (s.keys key).version ≤ (t.keys key).version := by
  cases h with
  | shrink _ _ hshrinks => exact hshrinks.version_le
  | commit _ _ _ _ hadmits => exact hadmits.version_lt.le

/-- A version that has not moved is a key that has not changed. -/
theorem Change.same {key : String} {s t : ZServer} (h : Change key s t)
    (hversion : (t.keys key).version = (s.keys key).version) : t.keys key = s.keys key := by
  cases h with
  | shrink _ _ hshrinks => exact hshrinks.same hversion
  | commit _ _ _ _ hadmits => exact absurd hversion hadmits.version_lt.ne'

/-- Time adds no member to any key. -/
theorem Passes.change {s t : ZServer} (h : Passes s t) (key : String) : Change key s t := by
  obtain ⟨now, hnow, rfl⟩ := h
  exact .shrink hnow rfl ((s.keys key).purge_shrinks now)

theorem trim_change (s : ZServer) (key : String) (min max : Int) :
    Change key s (s.set key ((s.keys key).trim min max)) :=
  .shrink (Int.le_refl _) rfl (by simpa using (s.keys key).trim_shrinks min max)

/-- The transaction that adds a member with an expiry. -/
theorem admit_spec (s : ZServer) (key : String) (score seconds : Int) :
    let t := [Queued.zadd key score, .expire key seconds].foldl queued s
    t.now = s.now ∧ t.nextUuid = s.nextUuid + 1 ∧
      (s.keys key).Admits (t.keys key) (s.nextUuid, score) (s.now + seconds * 1000) := by
  refine ⟨rfl, rfl, ?_⟩
  simpa [queued] using (s.keys key).add_expire_admits (s.nextUuid, score) (s.now + seconds * 1000)

end ZServer

section commands
variable {ε : Type}

def time : Prog ZCmd ZCmd.Reply ε Int := .perform ZCmd.time
def zremrangebyscore (key : String) (min max : Int) : Prog ZCmd ZCmd.Reply ε Unit :=
  .perform (ZCmd.zremrangebyscore key min max)
def watch (key : String) : Prog ZCmd ZCmd.Reply ε ℕ := .perform (ZCmd.watch key)
def zcard (key : String) : Prog ZCmd ZCmd.Reply ε ℕ := .perform (ZCmd.zcard key)
def zrange (key : String) (start stop : ℕ) : Prog ZCmd ZCmd.Reply ε (List Member) :=
  .perform (ZCmd.zrange key start stop)
def execute (key : String) (version : ℕ) (queue : List Queued) : Prog ZCmd ZCmd.Reply ε Bool :=
  .perform (ZCmd.execute key version queue)

end commands

end BaseWebService.Redis
