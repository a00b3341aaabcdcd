import BaseWebService.CircuitBreaker.AdmissionRate

/-!
# Concurrent failures

Any number of instances call `record_failure` at once. Each call reads `failure_count` and later
writes what it has read plus one, so the calls form chains: a call continues the chain of the call
whose write it has read. The stored count is the length of the chain of the last writer, and the
failures outside this chain are lost.
-/

namespace BaseWebService.CircuitBreaker

open Library Redis RedisCircuitBreaker

abbrev FailPool := Pool HashCmd HashCmd.Reply Error Unit HashServer

/-- The clock moves on, at most to `last`; the key does not expire. -/
def TickUntil (last : Int) (s t : HashServer) : Prop :=
  s.now ≤ t.now ∧ t.now ≤ last ∧ t.key = s.key

/-! ## Chains of calls -/

/-- The length of the chain that ends with the last writer, and for each call the length of the
chain it has read. -/
structure Chain where
  length : ℕ
  read : ℕ → ℕ

def Chain.step (c : Chain) : CallLabel → Chain
  | .issue i (.hget field) _ =>
    if field = "failure_count" then { c with read := Function.update c.read i c.length } else c
  | .issue i (.hset _) _ => { c with length := c.read i + 1 }
  | _ => c

def chain (h : CallHistory) : Chain := h.foldl (fun c x => c.step x.label) ⟨0, fun _ => 0⟩

def writer : CallLabel → Option ℕ
  | .issue i (.hset _) _ => some i
  | _ => none

theorem chain_snoc (h : CallHistory) (x : Transition HashServer CallLabel) :
    chain (h ++ [x]) = (chain h).step x.label := by
  simp [chain]

theorem proc_of_writer (l : CallLabel) (j : ℕ) (h : writer l = some j) : l.proc = some j := by
  cases l with
  | start | env => cases h
  | issue i c r =>
    cases c with
    | hset => exact h
    | _ => cases h

/-- What a call has read, only the call itself changes. -/
theorem read_of_other (c : Chain) {l : CallLabel} {i : ℕ} (h : l.proc ≠ some i) :
    (c.step l).read i = c.read i := by
  cases l with
  | start | env => rfl
  | issue j cmd r =>
    have hne : i ≠ j := fun heq => h (congrArg some heq.symm)
    cases cmd with
    | hget field =>
      simp only [Chain.step]
      split_ifs
      · exact Function.update_of_ne hne ..
      · rfl
    | _ => rfl

theorem length_of_not_writer (c : Chain) {l : CallLabel} (h : writer l = none) :
    (c.step l).length = c.length := by
  cases l with
  | start | env => rfl
  | issue j cmd r =>
    cases cmd with
    | hget field =>
      simp only [Chain.step]
      split_ifs <;> rfl
    | hset => cases h
    | _ => rfl

theorem length_of_writer (c : Chain) {l : CallLabel} {i : ℕ} (h : writer l = some i) :
    (c.step l).length = c.read i + 1 := by
  cases l with
  | start | env => cases h
  | issue j cmd r =>
    cases cmd with
    | hset mapping =>
      obtain rfl := Option.some.inj h
      rfl
    | _ => cases h

/-! ## The flowchart of `record_failure` -/

inductive FailPoint where
  | mode
  | clock (mode : String)
  | last (nowMs : Int)
  | count (nowMs lastTimeoutMs : Int)
  | openWrite (nowMs : Int) (failures : Option Int)
  | closedWrite (nowMs failures : Int)
  | renew
  | done

def failFlow (b : RedisCircuitBreaker) : Flow HashCmd HashCmd.Reply Error Unit FailPoint
  | .mode => .call (.hget "mode") fun (cachedMode : Option String) =>
    .clock (modeOrClosed cachedMode)
  | .clock mode => .call .time fun (nowMs : Int) =>
    if mode = modeHalfOpen then .openWrite nowMs none else .last nowMs
  | .last nowMs => .call (.hget "last_timeout_ms") fun (cached : Option String) =>
    match (asInt (some (str cached)) : M Int) with
    | .ret lastTimeoutMs => .count nowMs lastTimeoutMs
    | _ => .done
  | .count nowMs lastTimeoutMs => .call (.hget "failure_count") fun (cached : Option String) =>
    match (asInt (some (str cached)) : M Int) with
    | .ret failureCount =>
      if b.countFailure failureCount lastTimeoutMs nowMs ≥ b.config.timeoutThreshold then
        .openWrite nowMs (some (b.countFailure failureCount lastTimeoutMs nowMs))
      else .closedWrite nowMs (b.countFailure failureCount lastTimeoutMs nowMs)
    | _ => .done
  | .openWrite nowMs failures => .call (.hset
      [("mode", modeOpen),
       ("failure_count", pyStr (b.failuresOrThreshold failures)),
       ("last_timeout_ms", pyStr nowMs),
       ("open_until_ms", pyStr (nowMs + b.config.openSeconds * 1000)),
       ("half_open_successes", pyStr (0 : Int)),
       ("half_open_requests", pyStr (0 : Int))]) fun _ => .renew
  | .closedWrite nowMs failures => .call (.hset
      [("mode", modeClosed), ("failure_count", pyStr failures),
       ("last_timeout_ms", pyStr nowMs)]) fun _ => .renew
  | .renew => .call (.expire b.stateTtlSeconds) fun _ => .done
  | .done => .ret ()

theorem fail_follows {b : RedisCircuitBreaker} (hon : b.isEnabled = true) :
    Follows (failFlow b) b.recordFailure .mode := by
  rw [recordFailure, hon]
  refine ⟨_, rfl, fun (cachedMode : Option String) => ⟨_, rfl, fun (nowMs : Int) => ?_⟩⟩
  simp only [Prog.bind]
  by_cases hhalf : modeOrClosed cachedMode = modeHalfOpen
  · simp only [if_pos hhalf]
    exact ⟨_, rfl, fun _ => ⟨_, rfl, fun _ => rfl⟩⟩
  · simp only [if_neg hhalf]
    refine ⟨_, rfl, fun (cachedLast : Option String) => ?_⟩
    rcases asInt_cases (some (str cachedLast)) with ⟨l, hl⟩ | ⟨e, he⟩
    · simp only [Prog.bind, hl, Prog.ret_bind]
      refine ⟨_, rfl, fun (cachedCount : Option String) => ?_⟩
      rcases asInt_cases (some (str cachedCount)) with ⟨f, hf⟩ | ⟨e, he⟩
      · simp only [Prog.bind, hf, Prog.ret_bind]
        change Follows (failFlow b) (Prog.handle
          (if b.countFailure f l nowMs ≥ b.config.timeoutThreshold then
            b.openState nowMs (some (b.countFailure f l nowMs))
          else b.hsetState [("mode", modeClosed),
            ("failure_count", pyStr (b.countFailure f l nowMs)), ("last_timeout_ms", pyStr nowMs)])
          fun _ => .ret ()) _
        split_ifs
        · exact ⟨_, rfl, fun _ => ⟨_, rfl, fun _ => rfl⟩⟩
        · exact ⟨_, rfl, fun _ => ⟨_, rfl, fun _ => rfl⟩⟩
      · simp only [Prog.bind, he]
        rfl
    · simp only [Prog.bind, he]
      rfl

/-! ## The invariant -/

section count
variable (b : RedisCircuitBreaker) (c : Int)

/-- A chain of `n` calls that starts from `c` has opened the breaker. -/
def Opens (n : ℕ) : Prop := 0 < n ∧ b.config.timeoutThreshold ≤ c + n

instance (n : ℕ) : Decidable (Opens b c n) := inferInstanceAs (Decidable (_ ∧ _))

/-- The stored count behind a chain of `n` calls. From the threshold on it is only known to be at
least the threshold: a count of 0 is replaced by a threshold that is not positive. -/
def CountOf (n : ℕ) (f : Int) : Prop :=
  f = c + n ∨ b.config.timeoutThreshold ≤ f ∧ Opens b c n

/-- What the store holds once a chain of `n` calls has been written. -/
def Holding (n : ℕ) (s : HashServer) : Prop :=
  s.hget "mode" = some (if Opens b c n then modeOpen else modeClosed) ∧
    ∃ f, s.hget "failure_count" = some (pyStr f) ∧ CountOf b c n f

variable (first final : Int)

/-- The store, in a run that starts at `first` and ends by `final`. -/
structure CountStore (h : CallHistory) (s : HashServer) : Prop where
  now : first ≤ s.now ∧ s.now ≤ final
  last : ∃ l, s.hget "last_timeout_ms" = some (pyStr l) ∧
    final - l ≤ b.config.timeoutWindowSeconds * 1000
  holding : Holding b c (chain h).length s

def CountShared (h : CallHistory) (s : HashServer) : Prop :=
  CountStore b c first final h s ∧ Pool.Once writer h

/-- A time that a call has read. -/
def Within (now : Int) : Prop := first ≤ now ∧ now ≤ final

/-- Where a call stands that has not written. -/
def Unwritten (read : ℕ) : FailPoint → Prop
  | .mode => True
  | .clock mode => mode ≠ modeHalfOpen
  | .last now => Within first final now
  | .count now l => Within first final now ∧ now - l ≤ b.config.timeoutWindowSeconds * 1000
  | .openWrite now failures => Within first final now ∧
      ∃ f, failures = some f ∧ b.config.timeoutThreshold ≤ f ∧ Opens b c (read + 1)
  | .closedWrite now f => Within first final now ∧ ¬ Opens b c (read + 1) ∧ f = c + (read + 1 : ℕ)
  | .renew | .done => False

def CountLocal (i : ℕ) (h : CallHistory) (q : FailPoint) : Prop :=
  i ∈ Pool.started h ∧
    match q with
    | .renew | .done => i ∈ Pool.actors writer h
    | q => i ∉ Pool.actors writer h ∧ Unwritten b c first final ((chain h).read i) q

end count

section keeps
variable {b : RedisCircuitBreaker} {c first final : Int} {h : CallHistory} {i : ℕ}

theorem CountLocal.of_unwritten {q : FailPoint} (hstarted : i ∈ Pool.started h)
    (hnew : i ∉ Pool.actors writer h)
    (hq : Unwritten b c first final ((chain h).read i) q) :
    CountLocal b c first final i h q := by
  cases q with
  | renew | done => exact hq.elim
  | _ => exact ⟨hstarted, hnew, hq⟩

/-- The step of another call changes nothing a call has seen. -/
theorem CountLocal.frame {q : FailPoint} {x : Transition HashServer CallLabel}
    (hlocal : CountLocal b c first final i h q) (hx : x.label.proc ≠ some i) :
    CountLocal b c first final i (h ++ [x]) q := by
  obtain ⟨hstarted, hlocal⟩ := hlocal
  have hstarted' := Pool.mem_started_append hstarted [x]
  have hread : (chain (h ++ [x])).read i = (chain h).read i := by
    rw [chain_snoc]
    exact read_of_other _ hx
  have hnew : i ∉ Pool.actors writer h → i ∉ Pool.actors writer (h ++ [x]) := fun hnew =>
    Pool.not_mem_actors_snoc proc_of_writer hnew hx
  cases q with
  | renew | done =>
    refine ⟨hstarted', ?_⟩
    rw [Pool.actors_snoc]
    exact List.mem_append_left _ hlocal
  | _ => exact .of_unwritten hstarted' (hnew hlocal.1) (hread ▸ hlocal.2)

/-- A step that writes nothing. -/
theorem CountStore.idle {s t : HashServer} {x : Transition HashServer CallLabel}
    (hs : CountStore b c first final h s) (hx : writer x.label = none)
    (hnow : s.now ≤ t.now) (hfinal : t.now ≤ final)
    (hfields : ∀ field, t.hget field = s.hget field) :
    CountStore b c first final (h ++ [x]) t := by
  have hlength : (chain (h ++ [x])).length = (chain h).length := by
    rw [chain_snoc]
    exact length_of_not_writer _ hx
  constructor
  · exact ⟨hs.now.1.trans hnow, hfinal⟩
  · obtain ⟨l, hl, hrecent⟩ := hs.last
    exact ⟨l, (hfields _).trans hl, hrecent⟩
  · rw [hlength]
    simpa only [Holding, hfields] using hs.holding

/-- A write ends the chain that the call has read. -/
theorem CountStore.write {s : HashServer} (hs : CountStore b c first final h s)
    {mapping : List (String × String)} (mode : String) (now : Int) {f : Int}
    (hmode : (Hash.empty.set mapping).fields "mode" = some mode)
    (hcount : (Hash.empty.set mapping).fields "failure_count" = some (pyStr f))
    (hlast : (Hash.empty.set mapping).fields "last_timeout_ms" = some (pyStr now))
    (hrecent : final - now ≤ b.config.timeoutWindowSeconds * 1000)
    (hopens : mode = if Opens b c ((chain h).read i + 1) then modeOpen else modeClosed)
    (hf : CountOf b c ((chain h).read i + 1) f) :
    CountStore b c first final (h ++ [⟨s, .issue i (.hset mapping) (), s.hset mapping⟩])
      (s.hset mapping) := by
  constructor
  · exact hs.now
  · exact ⟨now, by rw [hget_hset, hlast]; rfl, hrecent⟩
  · rw [chain_snoc]
    refine ⟨by rw [hget_hset, hmode, hopens]; rfl, f, by rw [hget_hset, hcount]; rfl, hf⟩

/-- A command of the call that writes nothing. -/
theorem CountLocal.idle {s t : HashServer} {q : FailPoint} {cmd : HashCmd} {r : cmd.Reply}
    (hshared : CountShared b c first final h s) (hstarted : i ∈ Pool.started h)
    (hnew : i ∉ Pool.actors writer h) (hx : writer (.issue i cmd r) = none) (hnow : t.now = s.now)
    (hfields : ∀ field, t.hget field = s.hget field)
    (hq : Unwritten b c first final ((chain (h ++ [⟨s, .issue i cmd r, t⟩])).read i) q) :
    CountShared b c first final (h ++ [⟨s, .issue i cmd r, t⟩]) t ∧
      CountLocal b c first final i (h ++ [⟨s, .issue i cmd r, t⟩]) q := by
  have hstart : Pool.started (h ++ [⟨s, .issue i cmd r, t⟩]) = Pool.started h :=
    Pool.started_snoc h _
  refine ⟨⟨hshared.1.idle hx hnow.ge (hnow.le.trans hshared.1.now.2) hfields,
    hshared.2.quiet hstart hx⟩, .of_unwritten (hstart ▸ hstarted) ?_ hq⟩
  rw [Pool.actors_of_none hx]
  exact hnew

/-- A recent failure counts one more than what was read. -/
theorem countFailure_of_recent {now l : Int}
    (h : now - l ≤ b.config.timeoutWindowSeconds * 1000) (f : Int) :
    b.countFailure f l now = f + 1 := by
  rw [countFailure, if_neg (by omega)]

/-- The write of a call. -/
theorem CountLocal.write {s : HashServer} {mapping : List (String × String)}
    (hshared : CountShared b c first final h s) (hstarted : i ∈ Pool.started h)
    (hnew : i ∉ Pool.actors writer h)
    (hs : CountStore b c first final (h ++ [⟨s, .issue i (.hset mapping) (), s.hset mapping⟩])
      (s.hset mapping)) :
    CountShared b c first final (h ++ [⟨s, .issue i (.hset mapping) (), s.hset mapping⟩])
        (s.hset mapping) ∧
      CountLocal b c first final i (h ++ [⟨s, .issue i (.hset mapping) (), s.hset mapping⟩])
        .renew := by
  have hwriter : writer (.issue i (.hset mapping) ()) = some i := rfl
  have hstart : Pool.started (h ++ [⟨s, .issue i (.hset mapping) (), s.hset mapping⟩]) =
    Pool.started h := Pool.started_snoc h _
  refine ⟨⟨hs, hshared.2.act hstart hwriter hstarted hnew⟩, hstart ▸ hstarted, ?_⟩
  change i ∈ Pool.actors writer _
  rw [Pool.actors_snoc]
  exact List.mem_append_right _ (List.mem_singleton.mpr rfl)

/-- What a call that has read `f` at the end of a chain of `n` calls goes on to write. -/
theorem opens_iff_of_countOf {n : ℕ} {f : Int} (hf : CountOf b c n f) :
    (b.config.timeoutThreshold ≤ f + 1 ↔ Opens b c (n + 1)) ∧
      (f + 1 < b.config.timeoutThreshold → f + 1 = c + (n + 1 : ℕ)) := by
  rcases hf with rfl | ⟨hf, hpos, hle⟩
  · unfold Opens
    push_cast
    omega
  · unfold Opens
    push_cast
    omega

/-- A call's own command, at each of its points. -/
theorem CountLocal.issue (hwindow : final - first ≤ b.config.timeoutWindowSeconds * 1000)
    {s : HashServer} {q : FailPoint} {cmd : HashCmd} {next : cmd.Reply → FailPoint}
    (hflow : failFlow b q = .call cmd next) (hshared : CountShared b c first final h s)
    (hlocal : CountLocal b c first final i h q) :
    CountShared b c first final
        (h ++ [⟨s, .issue i cmd (HashServer.exec cmd s).1, (HashServer.exec cmd s).2⟩])
        (HashServer.exec cmd s).2 ∧
      CountLocal b c first final i
        (h ++ [⟨s, .issue i cmd (HashServer.exec cmd s).1, (HashServer.exec cmd s).2⟩])
        (next (HashServer.exec cmd s).1) := by
  obtain ⟨hstarted, hlocal⟩ := hlocal
  cases q with
  | mode =>
    obtain ⟨rfl, hnext⟩ := Node.call.inj hflow
    obtain rfl := eq_of_heq hnext
    obtain ⟨hnew, -⟩ := hlocal
    refine CountLocal.idle hshared hstarted hnew rfl rfl (fun _ => rfl) ?_
    simp only [HashServer.exec, hshared.1.holding.1, Unwritten, modeOrClosed]
    split_ifs <;> simp_all
  | clock mode =>
    obtain ⟨rfl, hnext⟩ := Node.call.inj hflow
    obtain rfl := eq_of_heq hnext
    obtain ⟨hnew, hmode⟩ := hlocal
    have hmode' : mode ≠ modeHalfOpen := hmode
    refine CountLocal.idle hshared hstarted hnew rfl rfl (fun _ => rfl) ?_
    simp only [if_neg hmode']
    exact hshared.1.now
  | last now =>
    obtain ⟨rfl, hnext⟩ := Node.call.inj hflow
    obtain rfl := eq_of_heq hnext
    obtain ⟨hnew, hnow⟩ := hlocal
    obtain ⟨l, hl, hrecent⟩ := hshared.1.last
    refine CountLocal.idle hshared hstarted hnew rfl rfl (fun _ => rfl) ?_
    simp only [HashServer.exec, hl, asInt_pyStr]
    exact ⟨hnow, by have := hnow.2; omega⟩
  | count now l =>
    obtain ⟨rfl, hnext⟩ := Node.call.inj hflow
    obtain rfl := eq_of_heq hnext
    obtain ⟨hnew, hnow, hrecent⟩ := hlocal
    obtain ⟨f, hcount, hf⟩ := hshared.1.holding.2
    obtain ⟨hopens, hclosed⟩ := opens_iff_of_countOf hf
    refine CountLocal.idle hshared hstarted hnew rfl rfl (fun _ => rfl) ?_
    rw [chain_snoc]
    simp only [HashServer.exec, hcount, asInt_pyStr, countFailure_of_recent hrecent, Chain.step,
      if_true, Function.update_self]
    by_cases hreach : f + 1 ≥ b.config.timeoutThreshold
    · rw [if_pos hreach]
      exact ⟨hnow, f + 1, rfl, hreach, hopens.mp hreach⟩
    · rw [if_neg hreach]
      exact ⟨hnow, fun h => hreach (hopens.mpr h), hclosed (by omega)⟩
  | openWrite now failures =>
    obtain ⟨rfl, hnext⟩ := Node.call.inj hflow
    obtain rfl := eq_of_heq hnext
    obtain ⟨hnew, hnow, f, rfl, hf, hopens⟩ := hlocal
    have hrecent := hnow.1
    refine CountLocal.write hshared hstarted hnew (hshared.1.write modeOpen now
      (by simp [Hash.set]) (by simp [Hash.set]) (by simp [Hash.set]) (by omega)
      (by rw [if_pos hopens]) (Or.inr ⟨failuresOrThreshold_ge hf, hopens⟩))
  | closedWrite now f =>
    obtain ⟨rfl, hnext⟩ := Node.call.inj hflow
    obtain rfl := eq_of_heq hnext
    obtain ⟨hnew, hnow, hopens, hf⟩ := hlocal
    have hrecent := hnow.1
    refine CountLocal.write hshared hstarted hnew (hshared.1.write modeClosed now
      (by simp [Hash.set]) (by simp [Hash.set]) (by simp [Hash.set]) (by omega)
      (by rw [if_neg hopens]) (Or.inl hf))
  | renew =>
    obtain ⟨rfl, hnext⟩ := Node.call.inj hflow
    obtain rfl := eq_of_heq hnext
    have hwriter : writer (.issue i (.expire b.stateTtlSeconds) ()) = none := rfl
    have hstart : ∀ t, Pool.started (h ++ [⟨s, .issue i (.expire b.stateTtlSeconds) (), t⟩]) =
      Pool.started h := fun t => Pool.started_snoc h _
    refine ⟨⟨hshared.1.idle hwriter (Int.le_refl _) hshared.1.now.2 (hget_expire s _),
      hshared.2.quiet (hstart _) hwriter⟩, (hstart _) ▸ hstarted, ?_⟩
    change i ∈ Pool.actors writer _
    rw [Pool.actors_of_none hwriter]
    exact hlocal
  | done => cases hflow

theorem count_keeps (hwindow : final - first ≤ b.config.timeoutWindowSeconds * 1000) :
    Pool.Keeps HashServer.exec (TickUntil final) (failFlow b) .mode
      (CountShared b c first final) (fun i h _ => CountLocal b c first final i h) where
  start h s i hshared hnone := by
    have hquiet : writer (.start i) = none := rfl
    have hstart : Pool.started (h ++ [⟨s, .start i, s⟩]) = Pool.started h ++ [i] :=
      Pool.started_snoc h _
    have honce : Pool.Once writer (h ++ [⟨s, .start i, s⟩]) := hshared.2.start rfl rfl hnone
    refine ⟨⟨hshared.1.idle hquiet (Int.le_refl _) hshared.1.now.2 fun _ => rfl, honce⟩,
      by rw [hstart]; simp, ?_, trivial⟩
    rw [Pool.actors_of_none hquiet]
    intro hmem
    obtain ⟨x, hx, hproc⟩ := Pool.mem_started (hshared.2.sub hmem)
    exact hnone x hx hproc
  issue h s i q cmd next hflow hshared hlocal := hlocal.issue hwindow hflow hshared
  passes h s t htick hshared := by
    have hfields : ∀ field, t.hget field = s.hget field := fun field => by
      simp [HashServer.hget, htick.2.2]
    have hstart : Pool.started (h ++ [⟨s, .env, t⟩]) = Pool.started h := Pool.started_snoc h _
    exact ⟨hshared.1.idle rfl htick.1 htick.2.1 hfields, hshared.2.quiet hstart rfl⟩
  frame h s j q hshared hlocal := by
    refine ⟨fun i hij => ?_, fun i q' cmd next hij hflow _ => ?_, fun t htick => ?_⟩
    · exact hlocal.frame (by simpa [Pool.Label.proc] using hij)
    · exact hlocal.frame (by simpa [Pool.Label.proc] using hij)
    · exact hlocal.frame (by simp [Pool.Label.proc])

end keeps

/-! ## When no failure is lost -/

abbrev FailStep (b : RedisCircuitBreaker) (final : Int) : FailPool → CallLabel → FailPool → Prop :=
  Pool.Step HashServer.exec b.recordFailure (TickUntil final)

/-- What `n` failures after a count of `c` should leave. -/
def Intact (b : RedisCircuitBreaker) (c : Int) (n : ℕ) (s : HashServer) : Prop :=
  if b.config.timeoutThreshold ≤ c + n then storedMode s = modeOpen
  else storedMode s = modeClosed ∧ s.hget "failure_count" = some (pyStr (c + n))

/-- No step turns OPEN into another mode. -/
def NeverReclosed (h : CallHistory) : Prop :=
  ∀ x ∈ h, storedMode x.before = modeOpen → storedMode x.after = modeOpen

/-- The last writer's chain holds all `n` calls, or enough of them to open the breaker. -/
def Linked (b : RedisCircuitBreaker) (c : Int) (n : ℕ) (h : CallHistory) : Prop :=
  if b.config.timeoutThreshold ≤ c + n then Opens b c (chain h).length else (chain h).length = n

/-- Once a chain has opened the breaker, no shorter one that has not is written. -/
def NeverShorter (b : RedisCircuitBreaker) (c : Int) (h : CallHistory) : Prop :=
  Throughout (fun past x => Opens b c (chain past).length →
    Opens b c (chain (past ++ [x])).length) h

/-- No write lands between the point where a call reads `failure_count` and its own write. -/
def Undisturbed (h : CallHistory) : Prop :=
  Throughout (fun past x => ∀ i, writer x.label = some i →
    (chain past).read i = (chain past).length) h

/-- Every call has returned. -/
def AllRecorded (p : FailPool) (h : CallHistory) : Prop :=
  ∀ i ∈ Pool.started h, p.procs i = some (.ret ())

section lost
variable {b : RedisCircuitBreaker} {c first final : Int} {s : HashServer} {p : FailPool}
  {tr : List (Transition FailPool CallLabel)} {h : CallHistory} {n : ℕ}

theorem Holding.storedMode (hs : Holding b c n s) :
    storedMode s = if Opens b c n then modeOpen else modeClosed := by
  rw [CircuitBreaker.storedMode, hs.1, modeOrClosed]
  split_ifs <;> simp_all

/-- The store tells how long the chain is. -/
theorem intact_iff (hs : Holding b c (chain h).length s) (n : ℕ) :
    Intact b c n s ↔ Linked b c n h := by
  have hmode := hs.storedMode
  obtain ⟨-, f, hcount, hf⟩ := hs
  unfold Intact Linked
  by_cases hreach : b.config.timeoutThreshold ≤ c + n
  · rw [if_pos hreach, if_pos hreach, hmode]
    split_ifs with hopens <;> simp [hopens]
  · rw [if_neg hreach, if_neg hreach, hmode, hcount, Option.some.injEq, pyStr_injective.eq_iff]
    by_cases hopens : Opens b c (chain h).length
    · have hne : (chain h).length ≠ n := fun heq => hreach (heq ▸ hopens.2)
      simp [hopens, hne]
    · rcases hf with rfl | ⟨-, hopens'⟩
      · simp [hopens]
      · exact absurd hopens' hopens

/-- A CLOSED breaker with a count of `c`, whose last failure is recent at every time up to
`final`. -/
structure ClosedServer (b : RedisCircuitBreaker) (c final : Int) (s : HashServer) : Prop where
  mode : s.hget "mode" = some modeClosed
  count : s.hget "failure_count" = some (pyStr c)
  last : ∃ l, s.hget "last_timeout_ms" = some (pyStr l) ∧
    final - l ≤ b.config.timeoutWindowSeconds * 1000
  now : s.now ≤ final
  window : final - s.now ≤ b.config.timeoutWindowSeconds * 1000

theorem ClosedServer.countStore (hs : ClosedServer b c final s) :
    CountStore b c s.now final [] s := by
  have hlength : (chain []).length = 0 := rfl
  have hopens : ¬ Opens b c 0 := fun h => absurd h.1 (Nat.lt_irrefl 0)
  refine ⟨⟨Int.le_refl _, hs.now⟩, hs.last, ?_⟩
  rw [hlength]
  exact ⟨by rw [if_neg hopens]; exact hs.mode, c, hs.count, Or.inl (by simp)⟩

/-- A breaker that is switched off writes nothing. -/
theorem disabled_keeps (b : RedisCircuitBreaker) (c first final : Int) :
    Pool.Keeps HashServer.exec (TickUntil final)
      (fun _ : Unit => (Node.ret () : Node HashCmd HashCmd.Reply Error Unit Unit)) ()
      (CountStore b c first final) (fun _ _ _ _ => True) where
  start h s i hs _ :=
    ⟨hs.idle (x := ⟨s, .start i, s⟩) rfl (Int.le_refl _) hs.now.2 fun _ => rfl, trivial⟩
  issue h s i q cmd next hflow := nomatch hflow
  passes h s t htick hs := by
    have hfields : ∀ field, t.hget field = s.hget field := fun field => by
      simp [HashServer.hget, htick.2.2]
    exact hs.idle (x := ⟨s, .env, t⟩) rfl htick.1 htick.2.1 hfields
  frame h s j q _ _ := ⟨fun _ _ => trivial, fun _ _ _ _ _ _ _ => trivial, fun _ _ => trivial⟩

theorem exists_countHolds (hon : b.isEnabled = true) (hs : ClosedServer b c final s)
    (hrun : Run (FailStep b final) (Pool.fresh s) tr p) :
    Pool.Holds (failFlow b) (CountShared b c s.now final)
      (fun i h _ => CountLocal b c s.now final i h) (Pool.history tr) p :=
  Pool.invariant (fail_follows hon) (count_keeps hs.window) hrun ⟨hs.countStore, .nil⟩

theorem holding_of_run (hs : ClosedServer b c final s)
    (hrun : Run (FailStep b final) (Pool.fresh s) tr p) :
    Holding b c (chain (Pool.history tr)).length p.store := by
  cases hon : b.isEnabled with
  | true => exact (exists_countHolds hon hs hrun).shared.1.holding
  | false =>
    have hbody : b.recordFailure = .ret () := by simp [recordFailure, hon]
    have hfollows : Follows (fun _ : Unit => (Node.ret () : Node HashCmd HashCmd.Reply Error Unit
      Unit)) b.recordFailure () := by rw [hbody]; rfl
    exact (Pool.invariant hfollows (disabled_keeps b c s.now final) hrun
      hs.countStore).shared.holding

/-- The mode on both sides of every step. -/
theorem neverReclosed_iff (hs : ClosedServer b c final s)
    (hrun : Run (FailStep b final) (Pool.fresh s) tr p) :
    NeverReclosed (Pool.history tr) ↔ NeverShorter b c (Pool.history tr) := by
  have hsides : ∀ past x future, Pool.history tr = past ++ x :: future →
      Holding b c (chain past).length x.before ∧
        Holding b c (chain (past ++ [x])).length x.after := by
    intro past x future hcut
    obtain ⟨pre, y, post, rfl, rfl, rfl⟩ := Pool.history_eq_append_cons hcut
    obtain ⟨m, hpre, hpost⟩ := hrun.append_inv
    obtain ⟨rfl, hstep, -⟩ := hpost.cons_inv
    refine ⟨holding_of_run hs hpre, ?_⟩
    have hafter := holding_of_run hs (hpre.snoc hstep)
    rwa [Pool.history_append] at hafter
  have hopen : ∀ {n s}, Holding b c n s → (storedMode s = modeOpen ↔ Opens b c n) := by
    intro n s hs
    rw [hs.storedMode]
    split_ifs with hopens <;> simp [hopens]
  constructor
  · intro hnever past x future hcut
    obtain ⟨hbefore, hafter⟩ := hsides past x future hcut
    rw [← hopen hbefore, ← hopen hafter]
    exact hnever x (by rw [hcut]; simp)
  · intro hnever x hx
    obtain ⟨past, future, hcut⟩ := List.append_of_mem hx
    obtain ⟨hbefore, hafter⟩ := hsides past x future hcut
    rw [hopen hbefore, hopen hafter]
    exact hnever past x future hcut

/-- Undisturbed calls form a single chain. -/
theorem chain_of_undisturbed (hh : Undisturbed h) :
    (chain h).length = (Pool.actors writer h).length ∧ NeverShorter b c h := by
  induction h using List.reverseRecOn with
  | nil => exact ⟨rfl, throughout_nil⟩
  | append_singleton h x ih =>
    obtain ⟨hpast, hx⟩ := throughout_snoc.mp hh
    obtain ⟨hlength, hnever⟩ := ih hpast
    rw [NeverShorter, throughout_snoc, Pool.actors_snoc, List.length_append, ← hlength, chain_snoc]
    cases hwriter : writer x.label with
    | none =>
      rw [length_of_not_writer _ hwriter]
      exact ⟨rfl, hnever, id⟩
    | some i =>
      rw [length_of_writer _ hwriter, hx i hwriter]
      refine ⟨rfl, hnever, fun hopens => ⟨Nat.succ_pos _, ?_⟩⟩
      have := hopens.2
      push_cast
      omega

/-- Once every call has returned, each has written. -/
theorem length_writers (hon : b.isEnabled = true) (hs : ClosedServer b c final s)
    (hrun : Run (FailStep b final) (Pool.fresh s) tr p)
    (hall : AllRecorded p (Pool.history tr)) :
    (Pool.actors writer (Pool.history tr)).length = (Pool.started (Pool.history tr)).length := by
  have hold := exists_countHolds hon hs hrun
  refine hold.shared.2.length_eq fun i hi => ?_
  obtain ⟨q, hfollows, -, hlocal⟩ := hold.point i _ (hall i hi)
  have hflow : failFlow b q = .ret () := hfollows
  cases q with
  | done => exact hlocal
  | _ => cases hflow

/-- No failure is lost and no OPEN state overwritten if and only if the chain of the last writer
is long enough and never gets too short; undisturbed calls see to that. -/
theorem no_failure_lost_iff (hs : ClosedServer b c final s)
    (hrun : Run (FailStep b final) (Pool.fresh s) tr p) :
    (Intact b c (Pool.started (Pool.history tr)).length p.store ∧
        NeverReclosed (Pool.history tr) ↔
      Linked b c (Pool.started (Pool.history tr)).length (Pool.history tr) ∧
        NeverShorter b c (Pool.history tr)) ∧
    (b.isEnabled = true → AllRecorded p (Pool.history tr) → Pool.started (Pool.history tr) ≠ [] →
      Undisturbed (Pool.history tr) →
      Intact b c (Pool.started (Pool.history tr)).length p.store ∧
        NeverReclosed (Pool.history tr)) := by
  have hiff : Intact b c (Pool.started (Pool.history tr)).length p.store ∧
        NeverReclosed (Pool.history tr) ↔
      Linked b c (Pool.started (Pool.history tr)).length (Pool.history tr) ∧
        NeverShorter b c (Pool.history tr) :=
    and_congr (intact_iff (holding_of_run hs hrun) _) (neverReclosed_iff hs hrun)
  refine ⟨hiff, fun hon hall hne hquiet => hiff.mpr ?_⟩
  obtain ⟨hlength, hnever⟩ := chain_of_undisturbed hquiet
  have hwriters := length_writers hon hs hrun hall
  refine ⟨?_, hnever⟩
  have hpos := List.length_pos_iff.mpr hne
  unfold Linked
  split_ifs with hreach
  · exact ⟨by omega, by omega⟩
  · omega

end lost

/-- A CLOSED breaker that has counted one failure. -/
def countedServer : HashServer where
  now := 0
  key := some ⟨(Hash.empty.set [("mode", modeClosed), ("failure_count", pyStr (1 : Int)),
    ("last_timeout_ms", pyStr (0 : Int))]).fields, some 120000⟩

theorem countedServer_closed : ClosedServer defaultBreaker 1 0 countedServer where
  mode := by simp [countedServer, HashServer.hget, Hash.set]
  count := by simp [countedServer, HashServer.hget, Hash.set]
  last := ⟨0, by simp [countedServer, HashServer.hget, Hash.set], by decide⟩
  now := Int.le_refl 0
  window := by decide

/-- Of two calls, the second comes to its end after the first has issued `n` commands. -/
theorem exists_two_failures (n : ℕ) {t u : HashServer}
    (hsecond : defaultBreaker.recordFailure.run HashServer.exec
      (defaultBreaker.recordFailure.advance HashServer.exec n countedServer).2 = (.ok (), t))
    (hfirst : (defaultBreaker.recordFailure.advance HashServer.exec n countedServer).1.run
      HashServer.exec t = (.ok (), u)) :
    ∃ tr p, Run (FailStep defaultBreaker 0) (Pool.fresh countedServer) tr p ∧
      Pool.started (Pool.history tr) = [0, 1] ∧ p.store = u := by
  obtain ⟨tr, p, hrun, hstore, -, -, hcalls⟩ := Pool.exists_contended_run n hsecond hfirst
  exact ⟨tr, p, hrun, hcalls, hstore⟩

/-- Two failures open the breaker if one is recorded after the other; where both have read the count
before one of them writes it, one is lost. -/
theorem no_failure_lost_iff_two :
    (∃ tr p, Run (FailStep defaultBreaker 0) (Pool.fresh countedServer) tr p ∧
      Pool.started (Pool.history tr) = [0, 1] ∧ Intact defaultBreaker 1 2 p.store ∧
      (NeverReclosed (Pool.history tr) ↔ Linked defaultBreaker 1 2 (Pool.history tr) ∧
        NeverShorter defaultBreaker 1 (Pool.history tr))) ∧
    ∃ tr p, Run (FailStep defaultBreaker 0) (Pool.fresh countedServer) tr p ∧
      Pool.started (Pool.history tr) = [0, 1] ∧ storedMode p.store = modeClosed ∧
      ¬ (Linked defaultBreaker 1 2 (Pool.history tr) ∧
        NeverShorter defaultBreaker 1 (Pool.history tr)) := by
  have hintact : ∀ s, Intact defaultBreaker 1 2 s ↔ storedMode s = modeOpen := by
    simp [Intact, defaultBreaker, CircuitBreakerConfig.default]
  constructor
  · obtain ⟨t, hsecond, u, hfirst, hmode⟩ : ∃ t, defaultBreaker.recordFailure.run HashServer.exec
        (defaultBreaker.recordFailure.advance HashServer.exec 0 countedServer).2 = (.ok (), t) ∧
        ∃ u, (defaultBreaker.recordFailure.advance HashServer.exec 0 countedServer).1.run
          HashServer.exec t = (.ok (), u) ∧ u.hget "mode" = some modeOpen :=
      ⟨_, rfl, _, rfl, rfl⟩
    obtain ⟨tr, p, hrun, hcalls, rfl⟩ := exists_two_failures 0 hsecond hfirst
    have hiff := (no_failure_lost_iff countedServer_closed hrun).1
    rw [hcalls] at hiff
    have hopen : Intact defaultBreaker 1 2 p.store := by
      rw [hintact, storedMode, hmode]
      rfl
    exact ⟨tr, p, hrun, hcalls, hopen, (and_iff_right hopen).symm.trans hiff⟩
  · obtain ⟨t, hsecond, u, hfirst, hmode⟩ : ∃ t, defaultBreaker.recordFailure.run HashServer.exec
        (defaultBreaker.recordFailure.advance HashServer.exec 4 countedServer).2 = (.ok (), t) ∧
        ∃ u, (defaultBreaker.recordFailure.advance HashServer.exec 4 countedServer).1.run
          HashServer.exec t = (.ok (), u) ∧ u.hget "mode" = some modeClosed :=
      ⟨_, rfl, _, rfl, rfl⟩
    obtain ⟨tr, p, hrun, hcalls, rfl⟩ := exists_two_failures 4 hsecond hfirst
    have hiff := (no_failure_lost_iff countedServer_closed hrun).1
    rw [hcalls] at hiff
    have hclosed : storedMode p.store = modeClosed := by
      rw [storedMode, hmode]
      rfl
    refine ⟨tr, p, hrun, hcalls, hclosed, fun hlinked => ?_⟩
    have hopen := (hintact p.store).mp (hiff.mpr hlinked).1
    exact absurd (hclosed.symm.trans hopen) (by decide)

/-- CLOSED with a count of 2. -/
def lateFields : List (String × String) :=
  [("mode", modeClosed), ("failure_count", pyStr (2 : Int)), ("last_timeout_ms", pyStr (0 : Int))]

/-- The end of a call that writes `lateFields`. -/
def lateWrite : M Unit :=
  .call (.hset lateFields) fun _ => .call (.expire 120) fun _ => .ret ()

/-- Three failures after one that is counted. The first call reads the count and is delayed, the
other two open the breaker, and the first one writes CLOSED over it. -/
theorem late_failure_closes : ∃ tr p x,
    Run (FailStep defaultBreaker 0) (Pool.fresh countedServer) tr p ∧
    Pool.started (Pool.history tr) = [0, 1, 2] ∧ AllRecorded p (Pool.history tr) ∧
    x ∈ Pool.history tr ∧ storedMode x.before = modeOpen ∧ storedMode x.after = modeClosed ∧
    ¬ Intact defaultBreaker 1 3 p.store := by
  have hrep : Represents countedServer (some (.closed 1 0, 120000)) :=
    ⟨_, rfl, rfl, by simp [Phase.Stored, Hash.set]⟩
  obtain ⟨s₁, hfirst, hnow₁, hrep₁⟩ := defaultBreaker.recordFailure_spec rfl hrep
  obtain ⟨s₂, hsecond, hnow₂, hrep₂⟩ := defaultBreaker.recordFailure_spec rfl hrep₁
  have hdelay : defaultBreaker.recordFailure.advance HashServer.exec 4 countedServer =
    (lateWrite, countedServer) := rfl
  have hopen : storedMode s₂ = modeOpen := by
    rw [storedMode_eq hrep₂, hnow₁]
    rfl
  let s₃ := s₂.hset lateFields
  have hclosed : storedMode s₃ = modeClosed := by
    simp [s₃, storedMode, hget_hset, lateFields, Hash.set, modeOrClosed]
  -- Three calls start, and the first one has read a count of 1.
  let procs : ℕ → Option (M Unit) := Function.update (Function.update (Function.update
    (fun _ => none) 0 (some defaultBreaker.recordFailure)) 1 (some defaultBreaker.recordFailure)) 2
    (some defaultBreaker.recordFailure)
  have hstart : Run (FailStep defaultBreaker 0) (Pool.fresh countedServer) _
      ⟨countedServer, procs⟩ :=
    ((Run.single (.start (i := 0) rfl)).snoc (.start (i := 1) rfl)).snoc (.start (i := 2) rfl)
  have hready : procs 0 = some defaultBreaker.recordFailure ∧
      procs 1 = some defaultBreaker.recordFailure ∧
      procs 2 = some defaultBreaker.recordFailure := ⟨rfl, rfl, rfl⟩
  clear_value procs
  obtain ⟨tr₀, hrun₀, hnone₀⟩ : ∃ tr, Run (FailStep defaultBreaker 0) ⟨countedServer, procs⟩ tr _ ∧
      Pool.started (Pool.history tr) = [] := Pool.exists_advance 4 (i := 0) hready.1
  simp only [hdelay] at hrun₀
  obtain ⟨tr₁, hrun₁, hnone₁⟩ : ∃ tr, Run (FailStep defaultBreaker 0)
      ⟨countedServer, Function.update procs 0 (some lateWrite)⟩ tr _ ∧
      Pool.started (Pool.history tr) = [] :=
    Pool.exists_solo_run (i := 1) (by simpa using hready.2.1) hfirst
  obtain ⟨tr₂, hrun₂, hnone₂⟩ : ∃ tr, Run (FailStep defaultBreaker 0)
      ⟨s₁, Function.update (Function.update procs 0 (some lateWrite)) 1 (some (.ret ()))⟩ tr _ ∧
      Pool.started (Pool.history tr) = [] :=
    Pool.exists_solo_run (i := 2) (by simpa using hready.2.2) hsecond
  generalize hthree : Function.update (Function.update (Function.update procs 0 (some lateWrite)) 1
    (some (.ret ()))) 2 (some (.ret ())) = three at hrun₂
  have hlate : three 0 = some lateWrite ∧ three 1 = some (.ret ()) ∧ three 2 = some (.ret ()) := by
    simp [← hthree]
  -- It writes over what the other two have stored.
  have hwrite : FailStep defaultBreaker 0 ⟨s₂, three⟩ _ ⟨s₃, _⟩ :=
    Pool.Step.issue_of (i := 0) hlate.1 rfl
  have hexpire : (.call (.expire 120) fun _ => .ret () : M Unit).run HashServer.exec s₃ =
    (.ok (), s₃.expire 120) := rfl
  obtain ⟨tr₃, hrun₃, hnone₃, hmem⟩ : ∃ tr, Run (FailStep defaultBreaker 0) ⟨s₂, three⟩ tr
      ⟨s₃.expire 120, Function.update three 0 (some (.ret ()))⟩ ∧
      Pool.started (Pool.history tr) = [] ∧
      ⟨s₂, .issue 0 (.hset lateFields) (), s₃⟩ ∈ Pool.history tr := by
    obtain ⟨tr, hrun, hnone⟩ : ∃ tr, Run (FailStep defaultBreaker 0)
        ⟨s₃, Function.update three 0 (some (.call (.expire 120) fun _ => .ret ()))⟩ tr _ ∧
        Pool.started (Pool.history tr) = [] :=
      Pool.exists_solo_run (i := 0) (by simp) hexpire
    simp only [Function.update_idem] at hrun
    exact ⟨_, hrun.cons hwrite, hnone, List.mem_cons_self ..⟩
  have hrun := (((hstart.trans hrun₀).trans hrun₁).trans hrun₂).trans hrun₃
  have hlast : storedMode (s₃.expire 120) = modeClosed := by
    simpa [storedMode, hget_expire] using hclosed
  refine ⟨_, _, ⟨s₂, .issue 0 (.hset lateFields) (), s₃⟩, hrun, ?_, ?_, ?_, hopen, hclosed, ?_⟩
  · simp [hnone₀, hnone₁, hnone₂, hnone₃]
  · intro i hi
    have hi : i = 0 ∨ i = 1 ∨ i = 2 := by
      simpa [hnone₀, hnone₁, hnone₂, hnone₃] using hi
    rcases hi with rfl | rfl | rfl
    · simp
    · simpa using hlate.2.1
    · simpa using hlate.2.2
  · exact Pool.history_append _ _ ▸ List.mem_append_right _ hmem
  · intro hintact
    have hopens : storedMode (s₃.expire 120) = modeOpen := by
      simpa [Intact, defaultBreaker, CircuitBreakerConfig.default] using hintact
    exact absurd (hlast.symm.trans hopens) (by decide)

end BaseWebService.CircuitBreaker
