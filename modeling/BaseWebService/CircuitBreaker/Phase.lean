import BaseWebService.CircuitBreaker.Basic

/-!
# The breaker as a state machine

`Phase` is the breaker's own statement of what it remembers: nothing, or one of three modes
with the numbers that mode uses. `Represents` says which Redis hash stores a phase, and the
lemmas at the end say what each method, run as a whole, does to a represented phase. Later
proofs reason about phases and never about fields.
-/

namespace BaseWebService.CircuitBreaker

open Library Redis

/-- What the breaker remembers in each mode. -/
inductive Phase where
  | closed (failures lastTimeoutMs : Int)
  | opened (failures lastTimeoutMs openUntilMs : Int)
  | halfOpen (successes requests : Int)

/-- A phase with the time its key expires; `none` is the missing key. -/
abbrev Memory := Option (Phase × Int)

/-- The fields that store a phase; other fields may be left over from earlier phases. -/
def Phase.Stored (fields : String → Option String) : Phase → Prop
  | .closed f l => fields "mode" = some modeClosed ∧ fields "failure_count" = some (pyStr f) ∧
      fields "last_timeout_ms" = some (pyStr l)
  | .opened f l u => fields "mode" = some modeOpen ∧ fields "failure_count" = some (pyStr f) ∧
      fields "last_timeout_ms" = some (pyStr l) ∧ fields "open_until_ms" = some (pyStr u)
  | .halfOpen n r => fields "mode" = some modeHalfOpen ∧
      fields "half_open_successes" = some (pyStr n) ∧
      fields "half_open_requests" = some (pyStr r)

def Represents (s : HashServer) : Memory → Prop
  | none => s.key = none
  | some (p, d) => ∃ h, s.key = some h ∧ h.deadline = some d ∧ p.Stored h.fields

namespace RedisCircuitBreaker

variable (b : RedisCircuitBreaker)

/-- The time at which a key written at `now` expires. -/
def deadline (now : Int) : Int := now + b.stateTtlSeconds * 1000

/-- The failure count a failure at `now` arrives at. -/
def countFailure (failures lastTimeoutMs now : Int) : Int :=
  if now - lastTimeoutMs > b.config.timeoutWindowSeconds * 1000 then 1 else failures + 1

/-- The phase written by `_open`. -/
def openPhase (now : Int) (failures : Option Int) : Phase :=
  .opened (b.failuresOrThreshold failures) now (now + b.config.openSeconds * 1000)

/-- A failure counted outside HALF_OPEN opens the breaker or leaves it closed. -/
def failurePhase (failures lastTimeoutMs now : Int) : Phase :=
  if b.countFailure failures lastTimeoutMs now ≥ b.config.timeoutThreshold then
    b.openPhase now (some (b.countFailure failures lastTimeoutMs now))
  else .closed (b.countFailure failures lastTimeoutMs now) now

def allowMemory (now : Int) : Memory → CircuitBreakerDecision × Memory
  | none => (⟨true, modeClosed⟩, none)
  | some (.closed f l, d) => (⟨true, modeClosed⟩, some (.closed f l, d))
  | some (.opened f l u, d) =>
    if now < u then (⟨false, modeOpen⟩, some (.opened f l u, d))
    else (⟨true, modeHalfOpen⟩, some (.halfOpen 0 1, b.deadline now))
  | some (.halfOpen n r, d) => (⟨(r + 1) % 2 == 1, modeHalfOpen⟩, some (.halfOpen n (r + 1), d))

/-- A missing key stays missing: the failure raises before it writes. -/
def failureMemory (now : Int) : Memory → Memory
  | none => none
  | some (.closed f l, _) => some (b.failurePhase f l now, b.deadline now)
  | some (.opened f l _, _) => some (b.failurePhase f l now, b.deadline now)
  | some (.halfOpen _ _, _) => some (b.openPhase now none, b.deadline now)

def successMemory (now : Int) : Memory → Memory
  | some (.halfOpen n r, d) =>
    if n + 1 < b.config.halfOpenSuccessThreshold then some (.halfOpen (n + 1) r, d)
    else some (.closed 0 0, b.deadline now)
  | _ => some (.closed 0 0, b.deadline now)

/-! ## The methods on a represented phase -/

@[simp] theorem asInt_pyStr (n : Int) : asInt (some (str (some (pyStr n)))) = .ret n := by
  simp [asInt, str, pyStr_ne_empty]

/-- The defect every later result turns on: a missing field is read as the text `None`. -/
@[simp] theorem asInt_none : asInt (some (str none)) = .raise (.valueError "None") := by
  have hnone : pyInt "None" = none := by decide
  simp [asInt, str, hnone]

/-- `_hset_state` writes the fields and restarts the expiry. -/
@[simp] theorem run_hsetState (m : List (String × String)) (s : HashServer) :
    (b.hsetState m).run HashServer.exec s =
      (.ok (), { s with
        key := some ⟨((s.key.getD .empty).set m).fields, some (b.deadline s.now)⟩ }) :=
  rfl

/-- The state `_open` leaves, from any state. -/
theorem openState_spec (now : Int) (failures : Option Int) (s : HashServer) (hnow : s.now = now) :
    ∃ t, (b.openState now failures).run HashServer.exec s = (.ok (), t) ∧ t.now = now ∧
      Represents t (some (b.openPhase now failures, b.deadline now)) := by
  refine ⟨_, b.run_hsetState _ _, hnow, _, rfl, by rw [hnow], ?_⟩
  simp [openPhase, Phase.Stored, Hash.set]

theorem closeState_spec (s : HashServer) :
    ∃ t, b.closeState.run HashServer.exec s = (.ok (), t) ∧ t.now = s.now ∧
      Represents t (some (.closed 0 0, b.deadline s.now)) := by
  refine ⟨_, b.run_hsetState _ _, rfl, _, rfl, rfl, ?_⟩
  simp [Phase.Stored, Hash.set]

/-- `HINCRBY` on a field that holds a number. -/
theorem run_increment {s : HashServer} {h : Hash} {field : String} {n : Int} (hkey : s.key = some h)
    (hfield : h.fields field = some (pyStr n)) :
    (increment field).run HashServer.exec s =
      (.ok (n + 1), { s with key := some (h.set [(field, pyStr (n + 1))]) }) := by
  simp [increment, HashServer.hincrby, HashServer.hget, HashServer.hset, hkey, hfield]

/-- Every HALF_OPEN request takes the next number and odd numbers are admitted. -/
theorem probe_spec {s : HashServer} {n r d : Int} (h : Represents s (some (.halfOpen n r, d))) :
    ∃ t, (probe modeHalfOpen).run HashServer.exec s = (.ok ⟨(r + 1) % 2 == 1, modeHalfOpen⟩, t) ∧
      t.now = s.now ∧ Represents t (some (.halfOpen n (r + 1), d)) := by
  obtain ⟨h, hkey, hdeadline, hmode, hsucc, hreq⟩ := h
  refine ⟨{ s with key := some (h.set [("half_open_requests", pyStr (r + 1))]) },
    ?_, rfl, _, rfl, hdeadline, ?_⟩
  · rw [probe, Prog.run_bind_ok _ (run_increment hkey hreq)]
    rfl
  · simp [Phase.Stored, Hash.set, hmode, hsucc]

/-- `allow_request`, run as a whole. -/
theorem allowRequest_spec (hon : b.isEnabled = true) {s : HashServer} {m : Memory}
    (h : Represents s m) :
    ∃ t, b.allowRequest.run HashServer.exec s = (.ok (b.allowMemory s.now m).1, t) ∧
      t.now = s.now ∧ Represents t (b.allowMemory s.now m).2 := by
  rcases m with _ | ⟨p, d⟩
  · have hkey : s.key = none := h
    refine ⟨s, ?_, rfl, hkey⟩
    simp [allowRequest, allowRequestTry, hon, Prog.run_handle, HashServer.hget, hkey, allowMemory]
  · obtain ⟨hash, hkey, hdeadline, hp⟩ := h
    cases p with
    | closed f l =>
      refine ⟨s, ?_, rfl, hash, hkey, hdeadline, hp⟩
      simp [allowRequest, allowRequestTry, hon, Prog.run_handle, HashServer.hget, hkey, hp.1,
        allowMemory]
    | opened f l u =>
      obtain ⟨hmode, hcount, hlast, huntil⟩ := hp
      by_cases hcool : s.now < u
      · refine ⟨s, ?_, rfl, ?_⟩
        · simp [allowRequest, allowRequestTry, hon, Prog.run_handle, HashServer.hget, hkey, hmode,
            huntil, hcool, allowMemory]
        · simpa [allowMemory, hcool] using ⟨hash, hkey, hdeadline, hmode, hcount, hlast, huntil⟩
      · -- The cooldown is over: the HALF_OPEN state is written, then the first probe is numbered.
        let half : HashServer := { s with key := some ⟨(hash.set
          [("mode", modeHalfOpen), ("half_open_successes", pyStr 0),
           ("half_open_requests", pyStr 0)]).fields, some (b.deadline s.now)⟩ }
        have hrep : Represents half (some (.halfOpen 0 0, b.deadline s.now)) :=
          ⟨_, rfl, rfl, by simp [Phase.Stored, Hash.set]⟩
        obtain ⟨t, hrun, hnow, ht⟩ := probe_spec hrep
        refine ⟨t, ?_, hnow, by simpa [allowMemory, hcool] using ht⟩
        have hwrite : (b.hsetState [("mode", modeHalfOpen), ("half_open_successes", pyStr 0),
            ("half_open_requests", pyStr 0)]).run HashServer.exec s = (.ok (), half) := by
          simp [half, hkey]
        simp [allowRequest, allowRequestTry, hon, Prog.run_handle, HashServer.hget, hkey, hmode,
          huntil, hcool, allowMemory, Prog.run_bind_ok _ hwrite, hrun]
    | halfOpen n r =>
      obtain ⟨t, hrun, hnow, ht⟩ := probe_spec ⟨hash, hkey, hdeadline, hp⟩
      refine ⟨t, ?_, hnow, ht⟩
      simp [allowRequest, allowRequestTry, hon, Prog.run_handle, HashServer.hget, hkey, hp.1, hrun,
        allowMemory]

/-- `record_failure` in CLOSED and in OPEN: both run the code written for CLOSED. -/
theorem recordFailure_counted (hon : b.isEnabled = true) {s : HashServer} {h : Hash} {mode : String}
    {f l : Int} (hkey : s.key = some h) (hmode : h.fields "mode" = some mode)
    (hne : mode ≠ "") (hhalf : mode ≠ modeHalfOpen)
    (hcount : h.fields "failure_count" = some (pyStr f))
    (hlast : h.fields "last_timeout_ms" = some (pyStr l)) :
    ∃ t, b.recordFailure.run HashServer.exec s = (.ok (), t) ∧
      t.now = s.now ∧ Represents t (some (b.failurePhase f l s.now, b.deadline s.now)) := by
  by_cases hopen : b.countFailure f l s.now ≥ b.config.timeoutThreshold
  · obtain ⟨t, hrun, hnow, ht⟩ :=
      b.openState_spec s.now (some (b.countFailure f l s.now)) s rfl
    refine ⟨t, ?_, hnow, by simpa [failurePhase, hopen] using ht⟩
    rw [countFailure] at hopen hrun
    simp [recordFailure, hon, Prog.run_handle, HashServer.hget, hkey, hmode, hne, hhalf, hcount,
      hlast, modeOrClosed, hopen, hrun]
  · let mapping := [("mode", modeClosed), ("failure_count", pyStr (b.countFailure f l s.now)),
      ("last_timeout_ms", pyStr s.now)]
    refine ⟨{ s with key := some ⟨(h.set mapping).fields, some (b.deadline s.now)⟩ },
      ?_, rfl, _, rfl, rfl, ?_⟩
    · rw [countFailure] at hopen
      simp [recordFailure, hon, Prog.run_handle, HashServer.hget, hkey, hmode, hne, hhalf, hcount,
        hlast, modeOrClosed, hopen, mapping, countFailure]
    · simp [failurePhase, hopen, Phase.Stored, Hash.set, mapping]

/-- `record_failure` and `record_timeout`, run as a whole. -/
theorem recordFailure_spec (hon : b.isEnabled = true) {s : HashServer} {m : Memory}
    (h : Represents s m) :
    ∃ t, b.recordFailure.run HashServer.exec s = (.ok (), t) ∧
      t.now = s.now ∧ Represents t (b.failureMemory s.now m) := by
  rcases m with _ | ⟨p, d⟩
  · have hkey : s.key = none := h
    refine ⟨s, ?_, rfl, hkey⟩
    simp [recordFailure, hon, Prog.run_handle, HashServer.hget, hkey, modeOrClosed]
  · obtain ⟨hash, hkey, hdeadline, hp⟩ := h
    cases p with
    | closed f l =>
      exact b.recordFailure_counted hon hkey hp.1 (by simp) (by simp) hp.2.1 hp.2.2
    | opened f l u =>
      exact b.recordFailure_counted hon hkey hp.1 (by simp) (by simp) hp.2.1 hp.2.2.1
    | halfOpen n r =>
      obtain ⟨t, hrun, hnow, ht⟩ := b.openState_spec s.now none s rfl
      refine ⟨t, ?_, hnow, ht⟩
      simp [recordFailure, hon, Prog.run_handle, HashServer.hget, hkey, hp.1, modeOrClosed, hrun]

/-- `record_success`, run as a whole. -/
theorem recordSuccess_spec (hon : b.isEnabled = true) {s : HashServer} {m : Memory}
    (h : Represents s m) :
    ∃ t, b.recordSuccess.run HashServer.exec s = (.ok (), t) ∧
      t.now = s.now ∧ Represents t (b.successMemory s.now m) := by
  obtain ⟨t, hrun, hnow, ht⟩ := b.closeState_spec s
  rcases m with _ | ⟨p, d⟩
  · have hkey : s.key = none := h
    refine ⟨t, ?_, hnow, ht⟩
    simp [recordSuccess, hon, Prog.run_handle, HashServer.hget, hkey, modeOrClosed, hrun]
  · obtain ⟨hash, hkey, hdeadline, hp⟩ := h
    cases p with
    | closed f l =>
      refine ⟨t, ?_, hnow, ht⟩
      simp [recordSuccess, hon, Prog.run_handle, HashServer.hget, hkey, hp.1, modeOrClosed, hrun]
    | opened f l u =>
      refine ⟨t, ?_, hnow, ht⟩
      simp [recordSuccess, hon, Prog.run_handle, HashServer.hget, hkey, hp.1, modeOrClosed, hrun]
    | halfOpen n r =>
      obtain ⟨hmode, hsucc, hreq⟩ := hp
      have hinc := run_increment hkey hsucc
      by_cases hmore : n + 1 < b.config.halfOpenSuccessThreshold
      · refine ⟨{ s with key := some (hash.set [("half_open_successes", pyStr (n + 1))]) },
          ?_, rfl, ?_⟩
        · simp [recordSuccess, hon, Prog.run_handle, HashServer.hget, hkey, hmode, modeOrClosed,
            Prog.run_bind_ok _ hinc, hmore]
        · simp only [successMemory, if_pos hmore]
          exact ⟨_, rfl, hdeadline, by simp [Phase.Stored, Hash.set, hmode, hreq]⟩
      · obtain ⟨t, hrun, hnow, ht⟩ := b.closeState_spec
          { s with key := some (hash.set [("half_open_successes", pyStr (n + 1))]) }
        refine ⟨t, ?_, hnow, by simpa [successMemory, hmore] using ht⟩
        simp [recordSuccess, hon, Prog.run_handle, HashServer.hget, hkey, hmode, modeOrClosed,
          Prog.run_bind_ok _ hinc, hmore, hrun]

end RedisCircuitBreaker

end BaseWebService.CircuitBreaker
