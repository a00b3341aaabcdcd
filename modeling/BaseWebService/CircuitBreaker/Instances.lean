import Mathlib.Algebra.Order.Group.Multiset
import BaseWebService.Library.Faults
import BaseWebService.CircuitBreaker.FailureCount

/-!
# Any number of instances, and a Redis that fails

Calls of every method, from any number of instances, are in progress at once. Between any two
commands of a call those of others may come, time may pass and the key may be lost; and any command
but the clock may fail, executed or not, upon which the method's `except Exception` decides. A count
may then be too low by any number, but it is never too high.

## Main results

* `kept` : what every run keeps, of the key and of each call.
* `opened_after_threshold`, `rejected_after_threshold` : no outage is made up.
-/

namespace BaseWebService.CircuitBreaker

open Library Redis RedisCircuitBreaker

/-! ## Calls -/

/-- A call of a method, in an instance in which a Redis pool is bound or is not. -/
structure Call where
  redisEnabled : Bool
  op : Op

namespace Call

abbrev Value : Call → Type := fun _ => Option CircuitBreakerDecision

variable (config : CircuitBreakerConfig)

def breaker (call : Call) : RedisCircuitBreaker := ⟨config, call.redisEnabled⟩

/-- What the method returns in its `except Exception`. -/
def fault (call : Call) : Except Error call.Value :=
  match call.op with
  | .allowRequest => .ok (some ⟨true, modeClosed⟩)
  | _ => .ok none

def body (call : Call) : Prog HashCmd (Fallible HashCmd.Reply) Error call.Value :=
  (call.op.prog (call.breaker config)).fallible call.fault

end Call

/-- Time passes, and the key may be gone. -/
def Passes (s t : HashServer) : Prop := s.now ≤ t.now ∧ (t.key = s.key ∨ t.key = none)

/-- Every command may take its time. -/
def hashKernel : Kernel HashCmd HashCmd.Reply HashServer where
  answer _ c s r t := ∃ u, Passes s u ∧ HashServer.exec c u = (r, t)
  suspend _ _ s t := Passes s t
  resume _ c s r t := ∃ u, Passes s u ∧ HashServer.exec c u = (r, t)

abbrev CallLoop := Loop HashCmd (Fallible HashCmd.Reply) Error HashServer Call.Value
abbrev InstanceLabel := Loop.Label HashCmd (Fallible HashCmd.Reply) Error Call.Value

/-- The clock is read without Redis. -/
def InstanceStep (config : CircuitBreakerConfig) : CallLoop → InstanceLabel → CallLoop → Prop :=
  Loop.Step (hashKernel.fallible (· ≠ .time)) (Call.body config)

/-! ## The flowchart of `record_success` -/

inductive SuccessPoint where
  | mode
  | number
  | write
  | renew
  | done

def closeMapping : List (String × String) :=
  [("mode", modeClosed), ("failure_count", pyStr (0 : Int)), ("last_timeout_ms", pyStr (0 : Int)),
   ("half_open_successes", pyStr (0 : Int)), ("half_open_requests", pyStr (0 : Int))]

def successFlow (b : RedisCircuitBreaker) : Flow HashCmd HashCmd.Reply Error Unit SuccessPoint
  | .mode => .call (.hget "mode") fun (cachedMode : Option String) =>
    if modeOrClosed cachedMode = modeHalfOpen then .number else .write
  | .number => .call (.hincrby "half_open_successes" 1) fun (successes : Option Int) =>
    match successes with
    | some n => if n < b.config.halfOpenSuccessThreshold then .done else .write
    | none => .done
  | .write => .call (.hset closeMapping) fun _ => .renew
  | .renew => .call (.expire b.stateTtlSeconds) fun _ => .done
  | .done => .ret ()

theorem success_follows {b : RedisCircuitBreaker} (hon : b.isEnabled = true) :
    Follows (successFlow b) b.recordSuccess .mode := by
  rw [recordSuccess, hon]
  refine ⟨_, rfl, fun (cachedMode : Option String) => ?_⟩
  simp only [Prog.bind]
  by_cases hhalf : modeOrClosed cachedMode = modeHalfOpen
  · simp only [if_pos hhalf]
    refine ⟨_, rfl, fun (successes : Option Int) => ?_⟩
    cases successes with
    | none => rfl
    | some n =>
      change Follows (successFlow b) (Prog.handle (if n < b.config.halfOpenSuccessThreshold then
        .ret () else b.closeState) fun _ => .ret ()) (if n < b.config.halfOpenSuccessThreshold then
        .done else .write)
      split_ifs
      · exact rfl
      · exact ⟨_, rfl, fun _ => ⟨_, rfl, fun _ => rfl⟩⟩
  · simp only [if_neg hhalf]
    exact ⟨_, rfl, fun _ => ⟨_, rfl, fun _ => rfl⟩⟩

/-! ## The discipline -/

inductive Place where
  | allow (point : AllowPoint)
  | fail (point : FailPoint)
  | success (point : SuccessPoint)

section discipline
variable (config : CircuitBreakerConfig)

/-- The flowcharts of an enabled breaker; whether it is does not show in their nodes. -/
def Place.asks : Place → Option ((c : HashCmd) × (c.Reply → Place))
  | .allow point => ((allowFlow ⟨config, true⟩ point).map Place.allow).asks
  | .fail point => ((failFlow ⟨config, true⟩ point).map Place.fail).asks
  | .success point => ((successFlow ⟨config, true⟩ point).map Place.success).asks

noncomputable def discipline : Discipline HashCmd HashCmd.Reply Place := .ofAsks (Place.asks config)

def Call.place (call : Call) : Place :=
  match call.op with
  | .allowRequest => .allow .mode
  | .recordFailure | .recordTimeout => .fail .mode
  | .recordSuccess => .success .mode

/-- No method raises, and a request is rejected where its flowchart says so. -/
def EndsWith (call : Call) (r : Except Error call.Value) (place : Place) : Prop :=
  ∃ value, r = .ok value ∧
    ∀ decision ∈ value, decision.allowed = false → place = .allow (.done decision)

theorem body_obeys (call : Call) : Obeys (discipline config) (EndsWith call) call.place
    (call.op.prog (call.breaker config)) := by
  obtain ⟨redisEnabled, op⟩ := call
  by_cases hon : (⟨config, redisEnabled⟩ : RedisCircuitBreaker).isEnabled = true
  · obtain rfl : redisEnabled = true := ((Bool.and_eq_true _ _).mp hon).2
    cases op with
    | allowRequest =>
      have hflow : Obeys (discipline config) _ (.allow .mode) _ :=
        (allow_follows hon).obeys Place.allow fun _ => rfl
      refine hflow.bind (fun decision place h => ?_) fun e place h => ?_
      · obtain ⟨point, rfl, hresult⟩ := h
        refine ⟨some decision, rfl, fun decision' hdecision hallowed => ?_⟩
        obtain rfl := Option.some.inj hdecision
        cases point with
        | done decision' =>
          cases hresult
          rfl
        | _ => cases hresult
      · obtain ⟨point, -, hresult⟩ := h
        cases point <;> cases hresult
    | recordFailure | recordTimeout =>
      have hflow : Obeys (discipline config) _ (.fail .mode) _ :=
        (fail_follows hon).obeys Place.fail fun _ => rfl
      refine hflow.bind (fun _ place h => ?_) fun e place h => ?_
      · exact ⟨none, rfl, by simp⟩
      · obtain ⟨point, -, hresult⟩ := h
        cases point <;> cases hresult
    | recordSuccess =>
      have hflow : Obeys (discipline config) _ (.success .mode) _ :=
        (success_follows hon).obeys Place.success fun _ => rfl
      refine hflow.bind (fun _ place h => ?_) fun e place h => ?_
      · exact ⟨none, rfl, by simp⟩
      · obtain ⟨point, -, hresult⟩ := h
        cases point <;> cases hresult
  · rw [Bool.not_eq_true] at hon
    cases op with
    | allowRequest =>
      rw [Op.prog, Call.breaker, allowRequest, hon]
      refine ⟨_, rfl, ?_⟩
      rintro decision ⟨⟩ ⟨⟩
    | recordFailure | recordTimeout | recordSuccess =>
      simp only [Op.prog, Call.breaker, recordTimeout, recordFailure, recordSuccess, hon]
      exact ⟨none, rfl, by simp⟩

end discipline

/-! ## What is kept -/

/-- A write of `record_failure`. -/
def writesFailure : HashCmd → Bool
  | .hset mapping => mapping.any (fun e => e.1 = "failure_count") && decide (mapping ≠ closeMapping)
  | _ => false

section kept
variable (config : CircuitBreakerConfig)

/-- After `n` failures were written, no more are counted, and the breaker has left CLOSED only if
they are enough. -/
structure Stored (n : ℕ) (s : HashServer) : Prop where
  mode : ∀ text, s.hget "mode" = some text → text ≠ modeClosed → config.timeoutThreshold ≤ n
  count : ∀ text, s.hget "failure_count" = some text → ∃ m : Int, text = pyStr m ∧ m ≤ n

/-- What a call that stands at the place has read bears it out. -/
def Backed (n : ℕ) : Place → Prop
  | .allow .mode => True
  | .allow (.done decision) => decision.allowed = false → config.timeoutThreshold ≤ n
  | .allow _ => config.timeoutThreshold ≤ n
  | .fail (.clock mode) => mode = modeHalfOpen → config.timeoutThreshold ≤ n
  | .fail (.openWrite _ failures) => config.timeoutThreshold ≤ n + 1 ∧
      failuresOrThreshold ⟨config, true⟩ failures ≤ n + 1
  | .fail (.closedWrite _ failures) => failures ≤ n + 1
  | _ => True

variable {config} {n n' : ℕ} {s t : HashServer}

theorem Stored.mono (hs : Stored config n s) (hle : n ≤ n') : Stored config n' s where
  mode text htext hne := (hs.mode text htext hne).trans (Int.ofNat_le.mpr hle)
  count text htext := by
    obtain ⟨m, rfl, hm⟩ := hs.count text htext
    exact ⟨m, rfl, hm.trans (Int.ofNat_le.mpr hle)⟩

theorem Backed.mono {place : Place} (hplace : Backed config n place) (hle : n ≤ n') :
    Backed config n' place := by
  cases place with
  | success => trivial
  | allow point => cases point <;> simp only [Backed] at hplace ⊢ <;> grind
  | fail point => cases point <;> simp only [Backed] at hplace ⊢ <;> grind

theorem Stored.passes (hs : Stored config n s) (hst : Passes s t) : Stored config n t := by
  obtain ⟨-, hkey | hkey⟩ := hst
  · have hget : ∀ field, t.hget field = s.hget field := fun field => by
      simp [HashServer.hget, hkey]
    exact ⟨by simpa [hget] using hs.mode, by simpa [hget] using hs.count⟩
  · have hget : ∀ field, t.hget field = none := fun field => by simp [HashServer.hget, hkey]
    exact ⟨by simp [hget], by simp [hget]⟩

theorem Stored.hset (hs : Stored config n s) {mapping : List (String × String)}
    (hmode : ∀ text, (Hash.empty.set mapping).fields "mode" = some text → text ≠ modeClosed →
      config.timeoutThreshold ≤ n)
    (hcount : ∀ text, (Hash.empty.set mapping).fields "failure_count" = some text →
      ∃ m : Int, text = pyStr m ∧ m ≤ n) : Stored config n (s.hset mapping) where
  mode text htext hne := by
    rw [hget_hset, Option.or_eq_some_iff] at htext
    rcases htext with htext | ⟨-, htext⟩
    · exact hmode text htext hne
    · exact hs.mode text htext hne
  count text htext := by
    rw [hget_hset, Option.or_eq_some_iff] at htext
    rcases htext with htext | ⟨-, htext⟩
    · exact hcount text htext
    · exact hs.count text htext

theorem Stored.hincrby (hs : Stored config n s) {field : String} (hmode : "mode" ≠ field)
    (hcount : "failure_count" ≠ field) (amount : Int) :
    Stored config n (s.hincrby field amount).2 := by
  unfold HashServer.hincrby
  split
  · have hget : ∀ value other, other ≠ field → (s.hset [(field, value)]).hget other =
        s.hget other := fun value other hne => by rw [hget_hset_singleton, if_neg hne]
    exact ⟨by simpa [hget _ _ hmode] using hs.mode, by simpa [hget _ _ hcount] using hs.count⟩
  · exact hs

theorem Stored.expire (hs : Stored config n s) (seconds : Int) :
    Stored config n (s.expire seconds) :=
  ⟨by simpa using hs.mode, by simpa using hs.count⟩

/-- What a command of a call at the place leaves, and where the call goes. -/
def Goes (config : CircuitBreakerConfig) (n : ℕ) (s : HashServer) (c : HashCmd)
    (next : c.Reply → Place) : Prop :=
  Stored config (n + (writesFailure c).toNat) (HashServer.exec c s).2 ∧
    Backed config (n + (writesFailure c).toNat) (next (HashServer.exec c s).1)

/-- A call writes, and has nothing to answer for afterwards. -/
theorem goes_write {mapping : List (String × String)} {next : Unit → Place} {k : ℕ}
    (hs : Stored config n s) (hwrites : (writesFailure (.hset mapping)).toNat = k)
    (hmode : ∀ text, (Hash.empty.set mapping).fields "mode" = some text → text ≠ modeClosed →
      config.timeoutThreshold ≤ (n + k : ℕ))
    (hcount : ∀ text, (Hash.empty.set mapping).fields "failure_count" = some text →
      ∃ m : Int, text = pyStr m ∧ m ≤ (n + k : ℕ))
    (hnext : ∀ k, Backed config k (next ())) : Goes config n s (.hset mapping) next := by
  subst hwrites
  exact ⟨(hs.mono (Nat.le_add_right n _)).hset hmode hcount, hnext _⟩

theorem goes_hget {P : Type} (place : P → Place) {field : String} {next : Option String → P}
    (hs : Stored config n s)
    (hnext : ∀ text, s.hget field = text → Backed config n (place (next text))) :
    Goes config n s (.hget field) fun text => place (next text) :=
  ⟨hs, hnext _ rfl⟩

theorem goes_time {P : Type} (place : P → Place) {next : Int → P} (hs : Stored config n s)
    (hnext : ∀ nowMs, Backed config n (place (next nowMs))) :
    Goes config n s .time fun nowMs => place (next nowMs) :=
  ⟨hs, hnext _⟩

theorem goes_hincrby {P : Type} (place : P → Place) {field : String} {next : Option Int → P}
    (hs : Stored config n s) (hmode : "mode" ≠ field) (hcount : "failure_count" ≠ field)
    (hnext : ∀ number, Backed config n (place (next number))) :
    Goes config n s (.hincrby field 1) fun number => place (next number) :=
  ⟨hs.hincrby hmode hcount 1, hnext _⟩

theorem goes_allow {point : AllowPoint} {c : HashCmd} {next : c.Reply → Place}
    (hs : Stored config n s) (hplace : Backed config n (.allow point))
    (hasks : (Place.allow point).asks config = some ⟨c, next⟩) : Goes config n s c next := by
  cases point with
  | mode =>
    cases hasks
    refine goes_hget Place.allow hs fun text hmode => ?_
    cases text with
    | none => rintro ⟨⟩
    | some mode =>
      dsimp only
      split_ifs with hclosed hopen
      · rintro ⟨⟩
      · exact hs.mode mode hmode hclosed
      · exact hs.mode mode hmode hclosed
  | openUntil =>
    cases hasks
    refine goes_hget Place.allow hs fun text _ => ?_
    rcases asInt_cases (some (str text)) with ⟨openUntilMs, hint⟩ | ⟨e, hint⟩
    · simp only [hint]
      exact hplace
    · simp only [hint]
      rintro ⟨⟩
  | clock openUntilMs =>
    cases hasks
    refine goes_time Place.allow hs fun nowMs => ?_
    split_ifs
    · exact fun _ => hplace
    · exact hplace
  | write =>
    cases hasks
    refine ⟨hs.hset (fun _ _ _ => hplace) ?_, hplace⟩
    simp [Hash.set, Hash.empty]
  | renew =>
    cases hasks
    exact ⟨hs.expire _, hplace⟩
  | number mode =>
    cases hasks
    refine goes_hincrby Place.allow hs (by decide) (by decide) fun number => ?_
    cases number with
    | some => exact fun _ => hplace
    | none => rintro ⟨⟩
  | done => cases hasks

theorem goes_fail {point : FailPoint} {c : HashCmd} {next : c.Reply → Place}
    (hs : Stored config n s) (hplace : Backed config n (.fail point))
    (hasks : (Place.fail point).asks config = some ⟨c, next⟩) : Goes config n s c next := by
  cases point with
  | mode =>
    cases hasks
    refine goes_hget Place.fail hs fun text hmode hhalf => ?_
    cases text with
    | none => simp [modeOrClosed] at hhalf
    | some mode =>
      refine hs.mode mode hmode ?_
      rintro rfl
      simp [modeOrClosed] at hhalf
  | clock mode =>
    cases hasks
    refine goes_time Place.fail hs fun nowMs => ?_
    split_ifs with hhalf
    · have henough := hplace hhalf
      exact ⟨henough.trans (by omega), henough.trans (by omega)⟩
    · exact trivial
  | last nowMs =>
    cases hasks
    refine goes_hget Place.fail hs fun text _ => ?_
    rcases asInt_cases (some (str text)) with ⟨lastTimeoutMs, hint⟩ | ⟨e, hint⟩ <;>
      simp only [hint] <;> trivial
  | count nowMs lastTimeoutMs =>
    cases hasks
    refine goes_hget Place.fail hs fun text hcount => ?_
    cases text with
    | none =>
      simp only [asInt_none]
      exact trivial
    | some text =>
      obtain ⟨m, rfl, hm⟩ := hs.count text hcount
      simp only [asInt_pyStr]
      have hle : countFailure ⟨config, true⟩ m lastTimeoutMs nowMs ≤ n + 1 := by
        unfold countFailure
        split_ifs <;> omega
      split_ifs with hopen
      · refine ⟨hopen.le.trans hle, ?_⟩
        simp only [failuresOrThreshold]
        split_ifs
        · exact hopen.le.trans hle
        · exact hle
      · exact hle
  | openWrite nowMs failures =>
    cases hasks
    refine goes_write (k := 1) hs ?_ (fun _ _ _ => hplace.1) (fun text htext => ?_) fun _ => trivial
    · simp [writesFailure, closeMapping]
    · obtain rfl : pyStr _ = text := by simpa [Hash.set] using htext
      exact ⟨_, rfl, hplace.2⟩
  | closedWrite nowMs failures =>
    cases hasks
    refine goes_write (k := 1) hs ?_ ?_ (fun text htext => ?_) fun _ => trivial
    · simp [writesFailure, closeMapping]
    · simp [Hash.set]
    · obtain rfl : pyStr failures = text := by simpa [Hash.set] using htext
      exact ⟨_, rfl, hplace⟩
  | renew =>
    cases hasks
    exact ⟨hs.expire _, trivial⟩
  | done => cases hasks

theorem goes_success {point : SuccessPoint} {c : HashCmd} {next : c.Reply → Place}
    (hs : Stored config n s) (hasks : (Place.success point).asks config = some ⟨c, next⟩) :
    Goes config n s c next := by
  cases point with
  | mode =>
    cases hasks
    exact ⟨hs, trivial⟩
  | number =>
    cases hasks
    exact goes_hincrby Place.success hs (by decide) (by decide) fun _ => trivial
  | write =>
    cases hasks
    refine goes_write (k := 0) hs ?_ ?_ (fun text htext => ?_) fun _ => trivial
    · simp [writesFailure]
    · simp [Hash.set, closeMapping]
    · obtain rfl : pyStr 0 = text := by simpa [Hash.set, closeMapping] using htext
      exact ⟨0, rfl, by omega⟩
  | renew =>
    cases hasks
    exact ⟨hs.expire _, trivial⟩
  | done => cases hasks

theorem goes {place : Place} {c : HashCmd} {next : c.Reply → Place} (hs : Stored config n s)
    (hplace : Backed config n place) (hasks : place.asks config = some ⟨c, next⟩) :
    Goes config n s c next := by
  cases place with
  | allow => exact goes_allow hs hplace hasks
  | fail => exact goes_fail hs hplace hasks
  | success => exact goes_success hs hasks

end kept

/-! ## Every run -/

abbrev CallStance := Stance HashCmd Place

structure Kept (config : CircuitBreakerConfig) (h : List (Library.Event HashCmd HashCmd.Reply))
    (m : Multiset CallStance) (s : HashServer) : Prop where
  stored : Stored config (issued writesFailure h) s
  backed : ∀ x ∈ m, Backed config (issued writesFailure h) x.state

section runs
variable {config : CircuitBreakerConfig} {h : List (Library.Event HashCmd HashCmd.Reply)}
  {m : Multiset CallStance} {s t : HashServer}

theorem Kept.abandon (x : CallStance) (hs : Kept config h (x ::ₘ m) s) : Kept config h m s :=
  ⟨hs.stored, fun y hy => hs.backed y (Multiset.mem_cons_of_mem hy)⟩

theorem Kept.waits {x y : CallStance} (hs : Kept config h (x ::ₘ m) s) (hst : Passes s t)
    (hstate : y.state = x.state) : Kept config h (y ::ₘ m) t := by
  refine ⟨hs.stored.passes hst, fun z hz => ?_⟩
  rcases Multiset.mem_cons.mp hz with rfl | hz
  · rw [hstate]
    exact hs.backed x (Multiset.mem_cons_self _ _)
  · exact hs.backed z (Multiset.mem_cons_of_mem hz)

theorem Kept.answer {x : CallStance} {i : ℕ} {c : HashCmd} {r : c.Reply}
    (hs : Kept config h (x ::ₘ m) s) (hallows : (discipline config).allows x.state c)
    (hanswer : ∃ u, Passes s u ∧ HashServer.exec c u = (r, t)) :
    Kept config (h ++ [⟨c, r⟩]) (⟨i, (discipline config).next x.state c r, none⟩ ::ₘ m) t := by
  obtain ⟨u, hsu, hexec⟩ := hanswer
  obtain ⟨next, hasks⟩ := hallows
  obtain ⟨hstored, hbacked⟩ := goes (hs.stored.passes hsu)
    (hs.backed x (Multiset.mem_cons_self _ _)) hasks
  rw [hexec] at hstored hbacked
  refine ⟨by rwa [issued_snoc], fun y hy => ?_⟩
  rw [issued_snoc]
  rcases Multiset.mem_cons.mp hy with rfl | hy
  · rw [discipline, next_ofAsks hasks]
    exact hbacked
  · exact (hs.backed y (Multiset.mem_cons_of_mem hy)).mono (Nat.le_add_right _ _)

theorem maintains : Maintains hashKernel (discipline config) Call.place EndsWith (Kept config) where
  start i call hidle hs := by
    refine ⟨hs.stored, fun x hx => ?_⟩
    rcases Multiset.mem_cons.mp hx with rfl | hx
    · obtain ⟨redisEnabled, op⟩ := call
      cases op <;> trivial
    · exact hs.backed x hx
  answer hidle hs hallows hanswer := hs.answer hallows hanswer
  suspend hidle hs hallows hsuspend := hs.waits hsuspend rfl
  resume hidle hs hallows hresume := hs.answer hallows hresume
  finish hidle hs hends := hs.abandon _

/-! A call of `record_failure` or `record_timeout` writes once, and no other does. -/

def FailPoint.spare : FailPoint → ℕ
  | .renew | .done => 0
  | _ => 1

theorem FailPoint.spare_le (point : FailPoint) : point.spare ≤ 1 := by
  cases point <;> simp [spare]

theorem recordFailure_atMost {b : RedisCircuitBreaker} (hon : b.isEnabled = true) :
    b.recordFailure.AtMost writesFailure 1 := by
  refine (fail_follows hon).atMost FailPoint.spare fun point c next hflow => ?_
  cases point with
  | mode | clock | last | count =>
    cases hflow
    exact ⟨Nat.zero_le _, fun r => (Nat.zero_add _).le.trans (FailPoint.spare_le _)⟩
  | openWrite | closedWrite =>
    cases hflow
    exact ⟨Bool.toNat_le _, fun r => (Nat.add_zero _).le.trans (Bool.toNat_le _)⟩
  | renew =>
    cases hflow
    exact ⟨le_rfl, fun r => le_rfl⟩
  | done => cases hflow

theorem allowRequest_atMost {b : RedisCircuitBreaker} (hon : b.isEnabled = true) :
    b.allowRequest.AtMost writesFailure 0 := by
  refine (allow_follows hon).atMost (fun _ => 0) fun point c next hflow => ?_
  cases point with
  | done => cases hflow
  | _ =>
    cases hflow
    exact ⟨le_rfl, fun r => le_rfl⟩

theorem recordSuccess_atMost {b : RedisCircuitBreaker} (hon : b.isEnabled = true) :
    b.recordSuccess.AtMost writesFailure 0 := by
  refine (success_follows hon).atMost (fun _ => 0) fun point c next hflow => ?_
  cases point with
  | done => cases hflow
  | write =>
    cases hflow
    have hwrites : writesFailure (.hset closeMapping) = false := by simp [writesFailure]
    simp [hwrites]
  | _ =>
    cases hflow
    exact ⟨le_rfl, fun r => le_rfl⟩

theorem body_atMost (config : CircuitBreakerConfig) (call : Call) :
    (call.body config).AtMost writesFailure call.op.isFailure.toNat := by
  refine Prog.AtMost.fallible ?_ _
  obtain ⟨redisEnabled, op⟩ := call
  by_cases hon : (⟨config, redisEnabled⟩ : RedisCircuitBreaker).isEnabled = true
  · have hdone : ∀ value, (Prog.ret value : M (Option CircuitBreakerDecision)).AtMost
        writesFailure 0 := fun _ => trivial
    cases op with
    | allowRequest => exact (allowRequest_atMost hon).bind fun _ => hdone _
    | recordFailure | recordTimeout => exact (recordFailure_atMost hon).bind fun _ => hdone _
    | recordSuccess => exact (recordSuccess_atMost hon).bind fun _ => hdone _
  · rw [Bool.not_eq_true] at hon
    cases op <;>
      simp [Op.prog, Call.breaker, allowRequest, recordTimeout, recordFailure, recordSuccess, hon,
        Prog.AtMost]

/-- How often `record_failure` and `record_timeout` have been called. -/
def failureCalls (tr : List (Transition CallLoop InstanceLabel)) : ℕ :=
  (Loop.called tr).countP fun call => call.op.isFailure

variable {tr : List (Transition CallLoop InstanceLabel)} {l l' : CallLoop}

/-- The breaker is CLOSED and counts no failure, as one without a key. -/
structure Calm (s : HashServer) : Prop where
  mode : ∀ text, s.hget "mode" = some text → text = modeClosed
  count : ∀ text, s.hget "failure_count" = some text → ∃ m : Int, text = pyStr m ∧ m ≤ 0

theorem kept (hcalm : Calm s) (hrun : Run (InstanceStep config) (Loop.fresh s) tr l) :
    Loop.Keeps (discipline config).fallible
      (fun call r place => Ends (EndsWith call) call.fault r place) (Despite (Kept config)) l := by
  refine Loop.maintained (fun call => (body_obeys config call).fallible call.fault)
    (maintains_fallible maintains (fun x hs => hs.abandon x) Call.fault) ?_ hrun
  exact ⟨[], .nil, ⟨⟨fun text htext hne => absurd (hcalm.mode text htext) hne, hcalm.count⟩,
    by simp [alive]⟩⟩

/-- As many failures were written as were called, at most. -/
theorem issued_le_failureCalls {h : List (Library.Event HashCmd HashCmd.Reply)}
    (hrun : Run (InstanceStep config) (Loop.fresh s) tr l) (hheard : Heard l.history h) :
    issued writesFailure h ≤ failureCalls tr :=
  (hheard.issued_le writesFailure).trans (Loop.issued_le_countP (body_atMost config) hrun)

/-- In every run from a breaker that is calm, one that is not CLOSED has been told of as many
failures as its threshold says. -/
theorem opened_after_threshold (hcalm : Calm s)
    (hrun : Run (InstanceStep config) (Loop.fresh s) tr l)
    (hmode : storedMode l.store ≠ modeClosed) : config.timeoutThreshold ≤ failureCalls tr := by
  obtain ⟨running, waiting, -, h, hheard, hkept⟩ := kept hcalm hrun
  refine le_trans ?_ (Int.ofNat_le.mpr (issued_le_failureCalls hrun hheard))
  cases htext : l.store.hget "mode" with
  | none => exact absurd (by simp [storedMode, htext, modeOrClosed]) hmode
  | some text =>
    refine hkept.stored.mode text htext ?_
    rintro rfl
    exact hmode (by simp [storedMode, htext, modeOrClosed])

variable (config) in
/-- What a call does alone is one of the runs. -/
theorem exists_call (hidle : l.running = none) (call : Call) : ∃ tr' m l',
    Run (InstanceStep config) l tr' m ∧ InstanceStep config m (.finish l.nextId call
      ((call.op.prog (call.breaker config)).run HashServer.exec l.store).1) l' ∧
    l'.store = ((call.op.prog (call.breaker config)).run HashServer.exec l.store).2 ∧
    l'.running = none := by
  have hexec : ∀ c s, (hashKernel.fallible (· ≠ .time)).answer l.nextId c s
      (answered HashServer.exec c s).1 (answered HashServer.exec c s).2 :=
    fun c s => ⟨s, ⟨le_rfl, .inl rfl⟩, rfl⟩
  have hsame : (call.body config).run (answered HashServer.exec) l.store =
      (call.op.prog (call.breaker config)).run HashServer.exec l.store := Prog.run_fallible ..
  rw [← hsame]
  exact Loop.exists_call hexec hidle call

end runs

/-- One failure is enough. -/
def sampleConfig : CircuitBreakerConfig :=
  { CircuitBreakerConfig.default with timeoutThreshold := 1 }

/-- What a success has left. -/
def sampleServer : HashServer := ⟨0, some ⟨(Hash.empty.set closeMapping).fields, some 120000⟩⟩

theorem calm_sample : Calm sampleServer where
  mode text htext := by
    simpa [sampleServer, HashServer.hget, Hash.set, closeMapping, eq_comm] using htext
  count text htext := by
    obtain rfl : pyStr 0 = text := by
      simpa [sampleServer, HashServer.hget, Hash.set, closeMapping] using htext
    exact ⟨0, rfl, le_rfl⟩

theorem represents_sample : Represents sampleServer (some (.closed 0 0, 120000)) := by
  refine ⟨_, rfl, rfl, ?_⟩
  simp [Phase.Stored, Hash.set, closeMapping]

/-- A failure opens the breaker. -/
theorem exists_run_opened : ∃ tr l d,
    Run (InstanceStep sampleConfig) (Loop.fresh sampleServer) tr l ∧ l.running = none ∧
      l.store.now = 0 ∧ Represents l.store (some (.opened 1 0 60000, d)) := by
  obtain ⟨tr, m, l, hrun, hstep, hstore, hidle⟩ :=
    exists_call sampleConfig (l := Loop.fresh sampleServer) rfl ⟨true, .recordFailure⟩
  obtain ⟨t, hrecord, hnow, ht⟩ :=
    opProg_spec (b := ⟨sampleConfig, true⟩) rfl .recordFailure represents_sample
  have heq : l.store = t := hstore.trans (congrArg Prod.snd hrecord)
  exact ⟨_, l, _, hrun.snoc hstep, hidle, heq ▸ hnow, heq ▸ ht⟩

theorem opened_after_threshold_sample : ∃ tr l,
    Run (InstanceStep sampleConfig) (Loop.fresh sampleServer) tr l ∧
      storedMode l.store = modeOpen ∧ 1 ≤ (failureCalls tr : Int) := by
  obtain ⟨tr, l, d, hrun, -, -, hopened⟩ := exists_run_opened
  have hmode : storedMode l.store = modeOpen := storedMode_eq hopened
  refine ⟨tr, l, hrun, hmode, opened_after_threshold calm_sample hrun ?_⟩
  rw [hmode]
  exact modes_differ.2.2.1

end BaseWebService.CircuitBreaker
