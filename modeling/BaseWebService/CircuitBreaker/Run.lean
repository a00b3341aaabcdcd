import Mathlib.Tactic
import BaseWebService.Library.Run
import BaseWebService.CircuitBreaker.Phase

/-!
# Runs of the breaker

Calls are executed one at a time, at non-decreasing times, each by the program of its
method; between two calls Redis may drop the key once its expiry has lapsed. `Simulates`
says that every such step is the step of the phase it starts from.
-/

namespace BaseWebService.CircuitBreaker

open Library Redis

inductive Op where
  | allowRequest
  | recordFailure
  | recordTimeout
  | recordSuccess
  deriving DecidableEq, Repr

/-- `record_failure` or `record_timeout`. -/
def Op.isFailure : Op → Bool
  | .recordFailure | .recordTimeout => true
  | _ => false

/-- The program of a call; only `allow_request` returns a decision. -/
def Op.prog (b : RedisCircuitBreaker) : Op → M (Option CircuitBreakerDecision)
  | .allowRequest => do
    let decision ← b.allowRequest
    pure (some decision)
  | .recordFailure => do
    b.recordFailure
    pure none
  | .recordTimeout => do
    b.recordTimeout
    pure none
  | .recordSuccess => do
    b.recordSuccess
    pure none

/-- A call made for a request, or the loss of the key. -/
inductive Event where
  | call (request : ℕ) (op : Op) (time : Int) (decision : Option CircuitBreakerDecision)
  | expire (time : Int)
  deriving DecidableEq

def Event.time : Event → Int
  | .call _ _ time _ => time
  | .expire time => time

inductive Step (b : RedisCircuitBreaker) : HashServer → Event → HashServer → Prop where
  | call {s t : HashServer} {request : ℕ} {op : Op} {time : Int}
      {decision : Option CircuitBreakerDecision} :
      s.now ≤ time → (op.prog b).run HashServer.exec { s with now := time } = (.ok decision, t) →
      Step b s (.call request op time decision) t
  | expire {s : HashServer} {h : Hash} {d time : Int} :
      s.now ≤ time → s.key = some h → h.deadline = some d → d ≤ time →
      Step b s (.expire time) ⟨time, none⟩

/-- The clock stands at the time of the last event. -/
theorem Step.now {b : RedisCircuitBreaker} {s t : HashServer} {e : Event} (h : Step b s e t) :
    s.now ≤ e.time ∧ t.now = e.time := by
  cases h with
  | @call _ _ op time _ hle hrun =>
    have hkeep := (op.prog b).run_invariant HashServer.exec (I := fun s => s.now = time)
      (fun c s hs => (HashServer.exec_now c s).trans hs) (s := { s with now := time }) rfl
    rw [hrun] at hkeep
    exact ⟨hle, hkeep⟩
  | expire hle _ _ _ => exact ⟨hle, rfl⟩

/-- States a run from an empty Redis passes through. -/
def Reachable (b : RedisCircuitBreaker) (s : HashServer) : Prop :=
  ∃ start, start.key = none ∧ Reaches (Step b) start s

/-- The mode a method reads. -/
def storedMode (s : HashServer) : String := RedisCircuitBreaker.modeOrClosed (s.hget "mode")

/-! ## Steps on phases -/

def Memory.mode : Memory → String
  | none => modeClosed
  | some (.closed _ _, _) => modeClosed
  | some (.opened _ _ _, _) => modeOpen
  | some (.halfOpen _ _, _) => modeHalfOpen

namespace RedisCircuitBreaker

variable {b : RedisCircuitBreaker}

/-- What a call at `now` decides and leaves. -/
def opMemory (b : RedisCircuitBreaker) (now : Int) (m : Memory) :
    Op → Option CircuitBreakerDecision × Memory
  | .allowRequest => (some (b.allowMemory now m).1, (b.allowMemory now m).2)
  | .recordFailure | .recordTimeout => (none, b.failureMemory now m)
  | .recordSuccess => (none, b.successMemory now m)

theorem storedMode_eq {s : HashServer} {m : Memory} (h : Represents s m) :
    storedMode s = m.mode := by
  rcases m with _ | ⟨p, d⟩
  · have hkey : s.key = none := h
    simp [storedMode, HashServer.hget, hkey, modeOrClosed, Memory.mode]
  · obtain ⟨hash, hkey, hdeadline, hp⟩ := h
    cases p <;> simp [storedMode, HashServer.hget, hkey, hp.1, modeOrClosed, Memory.mode]

theorem isSome_key {s : HashServer} {m : Memory} (h : Represents s m) :
    s.key.isSome = m.isSome := by
  rcases m with _ | ⟨p, d⟩
  · have hkey : s.key = none := h
    simp [hkey]
  · obtain ⟨hash, hkey, -, -⟩ := h
    simp [hkey]

theorem opProg_spec (hon : b.isEnabled = true) (op : Op) {s : HashServer} {m : Memory}
    (h : Represents s m) :
    ∃ t, (op.prog b).run HashServer.exec s = (.ok (b.opMemory s.now m op).1, t) ∧
      t.now = s.now ∧ Represents t (b.opMemory s.now m op).2 := by
  cases op with
  | allowRequest =>
    obtain ⟨t, hrun, hnow, ht⟩ := b.allowRequest_spec hon h
    exact ⟨t, by rw [Op.prog, Prog.run_bind_ok _ hrun]; rfl, hnow, ht⟩
  | recordFailure | recordTimeout =>
    obtain ⟨t, hrun, hnow, ht⟩ := b.recordFailure_spec hon h
    exact ⟨t, by rw [Op.prog]; exact Prog.run_bind_ok _ hrun _, hnow, ht⟩
  | recordSuccess =>
    obtain ⟨t, hrun, hnow, ht⟩ := b.recordSuccess_spec hon h
    exact ⟨t, by rw [Op.prog, Prog.run_bind_ok _ hrun]; rfl, hnow, ht⟩

/-- A call step, seen on phases. -/
theorem step_call (hon : b.isEnabled = true) {s t : HashServer} {m : Memory} (h : Represents s m)
    {request : ℕ} {op : Op} {time : Int} {decision : Option CircuitBreakerDecision}
    (hstep : Step b s (.call request op time decision) t) :
    s.now ≤ time ∧ t.now = time ∧ decision = (b.opMemory time m op).1 ∧
      Represents t (b.opMemory time m op).2 := by
  cases hstep with
  | call hle hrun =>
    have hrep : Represents { s with now := time } m := h
    obtain ⟨t', hrun', hnow, ht⟩ := opProg_spec hon op hrep
    rw [hrun] at hrun'
    obtain ⟨hd, rfl⟩ := Prod.mk.inj hrun'
    exact ⟨hle, hnow, Except.ok.inj hd, ht⟩

/-- No call raises and none is refused: from any represented state every call has its step. -/
theorem exists_step (hon : b.isEnabled = true) {s : HashServer} {m : Memory} (h : Represents s m)
    (request : ℕ) (op : Op) (time : Int) (hle : s.now ≤ time) :
    ∃ t, Step b s (.call request op time (b.opMemory time m op).1) t ∧ t.now = time ∧
      Represents t (b.opMemory time m op).2 := by
  have hrep : Represents { s with now := time } m := h
  obtain ⟨t, hrun, hnow, ht⟩ := opProg_spec hon op hrep
  exact ⟨t, .call hle hrun, hnow, ht⟩

/-- Expiry, seen on phases. -/
theorem step_expire {s t : HashServer} {m : Memory} (h : Represents s m) {time : Int}
    (hstep : Step b s (.expire time) t) :
    s.now ≤ time ∧ t.now = time ∧ Represents t none ∧ ∃ p d, m = some (p, d) ∧ d ≤ time := by
  cases hstep with
  | expire hle hkey hdeadline hdue =>
    rcases m with _ | ⟨p, d⟩
    · have hnone : s.key = none := h
      simp [hnone] at hkey
    · obtain ⟨hash, hkey', hdeadline', -⟩ := h
      obtain rfl : _ = hash := Option.some.inj (hkey.symm.trans hkey')
      obtain rfl : _ = d := Option.some.inj (hdeadline.symm.trans hdeadline')
      exact ⟨hle, rfl, rfl, p, _, rfl, hdue⟩

/-! ## What holds of every reachable state -/

/-- A breaker that is switched off stores nothing. -/
theorem opProg_disabled (hoff : b.isEnabled = false) (op : Op) (s : HashServer) :
    ((op.prog b).run HashServer.exec s).2 = s := by
  cases op <;> simp [Op.prog, allowRequest, recordFailure, recordTimeout, recordSuccess, hoff]

theorem reachable_disabled (hoff : b.isEnabled = false) {s : HashServer} (h : Reachable b s) :
    s.key = none := by
  obtain ⟨start, hstart, tr, hrun⟩ := h
  refine hrun.invariant (I := fun s => s.key = none) ?_ hstart
  rintro s e t hs hstep
  cases hstep with
  | @call _ _ op time _ _ hrun =>
    have hsame := opProg_disabled hoff op { s with now := time }
    rw [hrun] at hsame
    exact (congrArg HashServer.key hsame).trans hs
  | expire => rfl

/-- An open breaker has counted to the threshold, and a stored count is never negative unless
the threshold is. -/
def Counted (b : RedisCircuitBreaker) : Memory → Prop
  | some (.closed f _, _) => 0 ≤ b.config.timeoutThreshold → 0 ≤ f
  | some (.opened f _ _, _) => b.config.timeoutThreshold ≤ f
  | _ => True

theorem failuresOrThreshold_ge {n : Int} (h : b.config.timeoutThreshold ≤ n) :
    b.config.timeoutThreshold ≤ b.failuresOrThreshold (some n) := by
  simp only [failuresOrThreshold]
  split_ifs <;> omega

theorem countFailure_pos {f : Int} (h : 0 ≤ f) (l now : Int) : 1 ≤ b.countFailure f l now := by
  simp only [countFailure]
  split_ifs <;> omega

theorem failurePhase_counted {f l now d : Int} (h : 0 ≤ b.config.timeoutThreshold → 0 ≤ f) :
    b.Counted (some (b.failurePhase f l now, d)) := by
  unfold failurePhase openPhase
  split_ifs with hopen
  · exact failuresOrThreshold_ge hopen
  · intro hpos
    have := countFailure_pos (b := b) (h hpos) l now
    omega

theorem opMemory_counted {now : Int} {m : Memory} (op : Op) (h : b.Counted m) :
    b.Counted (b.opMemory now m op).2 := by
  have hzero : ∀ d, b.Counted (some (.closed 0 0, d)) := fun _ _ => le_refl _
  cases op with
  | allowRequest =>
    rcases m with _ | ⟨_ | _ | _, d⟩
    · exact h
    · exact h
    · simp only [opMemory, allowMemory]
      split_ifs
      · exact h
      · trivial
    · trivial
  | recordFailure | recordTimeout =>
    rcases m with _ | ⟨_ | ⟨f, l, u⟩ | _, d⟩
    · trivial
    · exact failurePhase_counted h
    · exact failurePhase_counted fun hpos => hpos.trans h
    · exact le_refl b.config.timeoutThreshold
  | recordSuccess =>
    rcases m with _ | ⟨_ | _ | ⟨n, r⟩, d⟩
    · exact hzero _
    · exact hzero _
    · exact hzero _
    · simp only [opMemory, successMemory]
      split_ifs
      · trivial
      · exact hzero _

/-- Every reachable state stores a phase, with counts that make sense. -/
theorem reachable_phase (hon : b.isEnabled = true) {s : HashServer} (h : Reachable b s) :
    ∃ m, Represents s m ∧ b.Counted m := by
  obtain ⟨start, hstart, tr, hrun⟩ := h
  refine hrun.invariant (I := fun s => ∃ m, Represents s m ∧ b.Counted m) ?_ ⟨none, hstart, trivial⟩
  rintro s (⟨request, op, time, decision⟩ | ⟨time⟩) t ⟨m, hrep, hm⟩ hstep
  · obtain ⟨-, -, -, ht⟩ := step_call hon hrep hstep
    exact ⟨_, ht, opMemory_counted op hm⟩
  · obtain ⟨-, -, ht, -⟩ := step_expire hrep hstep
    exact ⟨none, ht, trivial⟩

end RedisCircuitBreaker

end BaseWebService.CircuitBreaker
