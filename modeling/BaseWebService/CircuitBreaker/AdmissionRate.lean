import BaseWebService.Library.Pool
import BaseWebService.CircuitBreaker.Liveness

/-!
# How many concurrent requests are admitted

Any number of instances call `allow_request` at once while the breaker recovers. Odd numbers of
the shared counter are admitted, so every group of requests numbered in a row admits half of its
members, rounded up. A `HSET` of HALF_OPEN starts a new group: an instance that has seen OPEN
writes it even when another has written it already.
-/

namespace BaseWebService.CircuitBreaker

open Library Redis RedisCircuitBreaker

abbrev AllowPool := Pool HashCmd HashCmd.Reply Error CircuitBreakerDecision HashServer
abbrev CallLabel := Pool.Label HashCmd HashCmd.Reply
abbrev CallHistory := Pool.History HashCmd HashCmd.Reply HashServer

/-- The clock moves on; the key does not expire. -/
def Tick (s t : HashServer) : Prop := s.now ≤ t.now ∧ t.key = s.key

/-- A breaker that is to recover: OPEN with its cooldown over, or HALF_OPEN. -/
inductive Recovering (s : HashServer) : Prop where
  | opened {h : Hash} {u : Int} : s.key = some h → h.fields "mode" = some modeOpen →
      h.fields "open_until_ms" = some (pyStr u) → u ≤ s.now → Recovering s
  | halfOpen {h : Hash} {r : Int} : s.key = some h → h.fields "mode" = some modeHalfOpen →
      h.fields "half_open_requests" = some (pyStr r) → Recovering s

/-! ## Groups of requests -/

/-- The groups of `HINCRBY` commands between two `HSET` commands: how many finished ones have an
odd size, and the size of the last one. -/
structure Tally where
  odd : ℕ
  size : ℕ

def Tally.step (t : Tally) : CallLabel → Tally
  | .issue _ (.hset _) _ => ⟨t.odd + t.size % 2, 0⟩
  | .issue _ (.hincrby _ _) _ => ⟨t.odd, t.size + 1⟩
  | _ => t

def tally (h : CallHistory) : Tally := h.foldl (fun t x => t.step x.label) ⟨0, 0⟩

/-- How many groups have an odd size. -/
def oddGroups (h : CallHistory) : ℕ := (tally h).odd + (tally h).size % 2

/-- The number a call has drawn. -/
def drawn : CallLabel → Option (ℕ × Int)
  | .issue i (.hincrby _ _) (some n) => some (i, n)
  | _ => none

def draws (h : CallHistory) : List (ℕ × Int) := h.filterMap fun x => drawn x.label

/-- The calls that have drawn a number. -/
abbrev drawer (l : CallLabel) : Option ℕ := (drawn l).map Prod.fst

theorem actors_drawer (h : CallHistory) : Pool.actors drawer h = (draws h).map Prod.fst := by
  simp [Pool.actors, draws, List.map_filterMap]

theorem tally_snoc (h : CallHistory) (x : Transition HashServer CallLabel) :
    tally (h ++ [x]) = (tally h).step x.label := by
  simp [tally]

theorem draws_snoc (h : CallHistory) (x : Transition HashServer CallLabel) :
    draws (h ++ [x]) = draws h ++ (drawn x.label).toList := by
  simp only [draws, List.filterMap_append, List.filterMap_cons, List.filterMap_nil]
  cases drawn x.label <;> rfl

/-! ## The flowchart of `allow_request` -/

inductive AllowPoint where
  | mode
  | openUntil
  | clock (openUntilMs : Int)
  | write
  | renew
  | number (mode : String)
  | done (decision : CircuitBreakerDecision)

def allowFlow (b : RedisCircuitBreaker) :
    Flow HashCmd HashCmd.Reply Error CircuitBreakerDecision AllowPoint
  | .mode => .call (.hget "mode") fun (cachedMode : Option String) =>
    match cachedMode with
    | some mode =>
      if mode = modeClosed then .done ⟨true, mode⟩
      else if mode = modeOpen then .openUntil
      else .number mode
    | none => .done ⟨true, modeClosed⟩
  | .openUntil => .call (.hget "open_until_ms") fun (cachedOpenUntilMs : Option String) =>
    match (asInt (some (str cachedOpenUntilMs)) : M Int) with
    | .ret openUntilMs => .clock openUntilMs
    | _ => .done ⟨true, modeClosed⟩
  | .clock openUntilMs => .call .time fun (nowMs : Int) =>
    if nowMs < openUntilMs then .done ⟨false, modeOpen⟩ else .write
  | .write => .call (.hset [("mode", modeHalfOpen), ("half_open_successes", pyStr (0 : Int)),
      ("half_open_requests", pyStr (0 : Int))]) fun _ => .renew
  | .renew => .call (.expire b.stateTtlSeconds) fun _ => .number modeHalfOpen
  | .number mode => .call (.hincrby "half_open_requests" 1) fun (requestNumber : Option Int) =>
    match requestNumber with
    | some n => .done ⟨n % 2 == 1, mode⟩
    | none => .done ⟨true, modeClosed⟩
  | .done decision => .ret decision

theorem number_follows (b : RedisCircuitBreaker) (mode : String) :
    Follows (allowFlow b) ((probe mode).handle fun _ => .ret ⟨true, modeClosed⟩)
      (.number mode) := by
  refine ⟨_, rfl, fun (r : Option Int) => ?_⟩
  cases r <;> rfl

theorem allow_follows {b : RedisCircuitBreaker} (hon : b.isEnabled = true) :
    Follows (allowFlow b) b.allowRequest .mode := by
  rw [allowRequest_of_isEnabled hon]
  refine ⟨_, rfl, fun (cachedMode : Option String) => ?_⟩
  cases cachedMode with
  | none => rfl
  | some mode =>
    simp only [Prog.bind]
    by_cases hclosed : mode = modeClosed
    · simp only [if_pos hclosed]
      rfl
    · by_cases hopen : mode = modeOpen
      · simp only [if_neg hclosed, if_pos hopen]
        refine ⟨_, rfl, fun (cachedOpenUntilMs : Option String) => ?_⟩
        rcases asInt_cases (some (str cachedOpenUntilMs)) with ⟨u, hu⟩ | ⟨e, he⟩
        · simp only [Prog.bind, hu, Prog.ret_bind]
          refine ⟨_, rfl, fun (nowMs : Int) => ?_⟩
          simp only [Prog.bind]
          by_cases hcool : nowMs < u
          · simp only [if_pos hcool]
            exact congrArg _ (congrArg _ hopen.symm)
          · simp only [if_neg hcool]
            refine ⟨_, rfl, fun _ => ⟨_, rfl, fun _ => ?_⟩⟩
            exact number_follows b modeHalfOpen
        · simp only [Prog.bind, he]
          rfl
      · simp only [if_neg hclosed, if_neg hopen]
        exact number_follows b mode

/-! ## The invariant -/

/-- The draws of an odd number. -/
def oddDraws (h : CallHistory) : List (ℕ × Int) := (draws h).filter fun e => e.2 % 2 == 1

/-- What the store holds. `opened` says that the run starts in OPEN, `base` is the counter that the
first group starts from. The books balance: every group admits half of its members, rounded up. -/
structure RateStore (opened : Bool) (base : Int) (h : CallHistory) (s : HashServer) : Prop where
  until_over : opened = true →
    ∃ u, s.hget "open_until_ms" = some (pyStr u) ∧ u ≤ s.now
  mode : s.hget "mode" = some modeOpen ∧ opened = true ∧ draws h = [] ∧ tally h = ⟨0, 0⟩ ∨
    s.hget "mode" = some modeHalfOpen ∧
      s.hget "half_open_requests" = some (pyStr (base + (tally h).size))
  books : 2 * ((oddDraws h).length : Int) + base % 2 =
    (draws h).length + (tally h).odd + (base + (tally h).size) % 2
  base_eq : if opened = true then base = 0 else (tally h).odd = 0

def RateShared (opened : Bool) (base : Int) (h : CallHistory) (s : HashServer) : Prop :=
  RateStore opened base h s ∧ Pool.Once drawer h

/-- Where a call stands that has not drawn its number. -/
def Undrawn (opened : Bool) (s : HashServer) : AllowPoint → Prop
  | .mode => True
  | .openUntil | .write => opened = true
  | .clock u => opened = true ∧ u ≤ s.now
  | .renew => opened = true ∧ s.hget "mode" = some modeHalfOpen
  | .number mode => mode = modeHalfOpen ∧ s.hget "mode" = some modeHalfOpen
  | .done _ => False

def RateLocal (opened : Bool) (i : ℕ) (h : CallHistory) (s : HashServer) (q : AllowPoint) : Prop :=
  i ∈ Pool.started h ∧
    match q with
    | .done d => ∃ n, (i, n) ∈ draws h ∧ d.allowed = (n % 2 == 1)
    | q => i ∉ Pool.actors drawer h ∧ Undrawn opened s q

section keeps
variable {opened : Bool} {base : Int} {h : CallHistory} {i : ℕ}

/-- A command that neither writes nor draws. -/
def IsIdle : CallLabel → Prop
  | .issue _ (.hset _) _ | .issue _ (.hincrby _ _) _ => False
  | _ => True

theorem drawer_of_idle {l : CallLabel} (hl : IsIdle l) : drawer l = none := by
  cases l with
  | start | env => rfl
  | issue i c r => cases c <;> first | rfl | exact hl.elim

theorem tally_of_idle {x : Transition HashServer CallLabel} (hx : IsIdle x.label) :
    tally (h ++ [x]) = tally h ∧ draws (h ++ [x]) = draws h := by
  rw [tally_snoc, draws_snoc]
  obtain ⟨s, l, t⟩ := x
  cases l with
  | start | env => simp [Tally.step, drawn]
  | issue i c r => cases c <;> simp_all [IsIdle, Tally.step, drawn]

/-- A step that leaves the fields alone. -/
theorem RateStore.idle {s t : HashServer} {x : Transition HashServer CallLabel}
    (hs : RateStore opened base h s) (hx : IsIdle x.label) (hnow : s.now ≤ t.now)
    (hfields : ∀ field, t.hget field = s.hget field) : RateStore opened base (h ++ [x]) t := by
  obtain ⟨htally, hdraws⟩ := tally_of_idle hx
  constructor
  · intro hopened
    obtain ⟨u, hu, hle⟩ := hs.until_over hopened
    exact ⟨u, (hfields _).trans hu, hle.trans hnow⟩
  · rw [hfields, hfields, htally, hdraws]
    exact hs.mode
  · rw [oddDraws, htally, hdraws]
    exact hs.books
  · rw [htally]
    exact hs.base_eq

/-- Whoever writes HALF_OPEN starts a new group. -/
theorem RateStore.write {s : HashServer} (hs : RateStore opened base h s) (hopened : opened = true)
    {mapping : List (String × String)} (hmapping : mapping = [("mode", modeHalfOpen),
      ("half_open_successes", pyStr (0 : Int)), ("half_open_requests", pyStr (0 : Int))]) :
    RateStore opened base (h ++ [⟨s, .issue i (.hset mapping) (), s.hset mapping⟩])
      (s.hset mapping) := by
  have hbase : base = 0 := by simpa [hopened] using hs.base_eq
  have htally : tally (h ++ [⟨s, .issue i (.hset mapping) (), s.hset mapping⟩]) =
      ⟨(tally h).odd + (tally h).size % 2, 0⟩ := by rw [tally_snoc]; rfl
  have hdraws : draws (h ++ [⟨s, .issue i (.hset mapping) (), s.hset mapping⟩]) = draws h := by
    rw [draws_snoc]
    exact List.append_nil _
  constructor
  · intro _
    obtain ⟨u, hu, hle⟩ := hs.until_over hopened
    exact ⟨u, by simpa [hget_hset, hmapping, Hash.set, Hash.empty] using hu, hle⟩
  · right
    rw [htally]
    simp [hget_hset, hmapping, Hash.set, hbase]
  · have hbooks := hs.books
    simp only [oddDraws, hdraws, htally] at hbooks ⊢
    subst hbase
    omega
  · simp [hopened, hbase]

/-- A draw from a HALF_OPEN counter. -/
theorem RateStore.hincrby {s : HashServer} (hs : RateStore opened base h s)
    (hmode : s.hget "mode" = some modeHalfOpen) :
    s.hincrby "half_open_requests" 1 = (some (base + (tally h).size + 1),
      s.hset [("half_open_requests", pyStr (base + (tally h).size + 1))]) := by
  rcases hs.mode with ⟨hopen, -⟩ | ⟨-, hrequests⟩
  · exact absurd (hopen.symm.trans hmode) (by simp)
  · simp [HashServer.hincrby, hrequests]

theorem RateStore.draw {s t : HashServer} {n : Int} (hs : RateStore opened base h s)
    (hmode : s.hget "mode" = some modeHalfOpen) (hn : n = base + (tally h).size + 1)
    (ht : t = s.hset [("half_open_requests", pyStr n)]) {x : Transition HashServer CallLabel}
    (hx : x.label = .issue i (.hincrby "half_open_requests" 1) (some n)) :
    RateStore opened base (h ++ [x]) t := by
  have htally : tally (h ++ [x]) = ⟨(tally h).odd, (tally h).size + 1⟩ := by
    rw [tally_snoc, hx]
    rfl
  have hdraws : draws (h ++ [x]) = draws h ++ [(i, n)] := by
    rw [draws_snoc, hx]
    rfl
  have hbooks := hs.books
  constructor
  · intro hopened
    obtain ⟨u, hu, hle⟩ := hs.until_over hopened
    exact ⟨u, by simpa [ht, hget_hset_singleton] using hu, by rw [ht]; exact hle⟩
  · right
    rw [htally, ht]
    simp only [hget_hset_singleton, hmode]
    refine ⟨by simp, ?_⟩
    rw [if_pos trivial, hn]
    push_cast
    rw [Int.add_assoc]
  · rw [oddDraws, hdraws, htally, List.filter_append]
    simp only [oddDraws] at hbooks
    by_cases hodd : n % 2 = 1
    · simp [hodd]
      omega
    · simp [hodd]
      omega
  · rw [htally]
    exact hs.base_eq

theorem proc_of_drawer (l : CallLabel) (j : ℕ) (h : drawer l = some j) : l.proc = some j := by
  cases l with
  | start | env => cases h
  | issue i c r =>
    cases c with
    | hincrby field amount =>
      cases r with
      | none => cases h
      | some n => exact h
    | _ => cases h

/-- The step of another call changes nothing a call has seen. -/
theorem RateLocal.frame {s t : HashServer} {q : AllowPoint} {x : Transition HashServer CallLabel}
    (hlocal : RateLocal opened i h s q) (hx : x.label.proc ≠ some i) (hnow : s.now ≤ t.now)
    (hmode : s.hget "mode" = some modeHalfOpen → t.hget "mode" = some modeHalfOpen) :
    RateLocal opened i (h ++ [x]) t q := by
  obtain ⟨hstarted, hlocal⟩ := hlocal
  have hnew : i ∉ Pool.actors drawer h → i ∉ Pool.actors drawer (h ++ [x]) := fun hnew =>
    Pool.not_mem_actors_snoc proc_of_drawer hnew hx
  refine ⟨Pool.mem_started_append hstarted _, ?_⟩
  cases q with
  | done d =>
    obtain ⟨n, hn, hd⟩ := hlocal
    exact ⟨n, by rw [draws_snoc]; exact List.mem_append_left _ hn, hd⟩
  | mode | openUntil | write => exact ⟨hnew hlocal.1, hlocal.2⟩
  | clock u => exact ⟨hnew hlocal.1, hlocal.2.1, hlocal.2.2.trans hnow⟩
  | renew | number => exact ⟨hnew hlocal.1, hlocal.2.1, hmode hlocal.2.2⟩

/-- What the commands of `allow_request` do to the clock and to HALF_OPEN. -/
theorem halfOpen_of_issue {b : RedisCircuitBreaker} {q : AllowPoint} {c : HashCmd}
    {next : c.Reply → AllowPoint} (hflow : allowFlow b q = .call c next) (s : HashServer)
    (hmode : s.hget "mode" = some modeHalfOpen) :
    (HashServer.exec c s).2.hget "mode" = some modeHalfOpen := by
  cases q with
  | mode | openUntil | clock =>
    obtain ⟨rfl, -⟩ := Node.call.inj hflow
    exact hmode
  | write =>
    obtain ⟨rfl, -⟩ := Node.call.inj hflow
    simp [HashServer.exec, hget_hset, Hash.set]
  | renew =>
    obtain ⟨rfl, -⟩ := Node.call.inj hflow
    simpa [HashServer.exec] using hmode
  | number =>
    obtain ⟨rfl, -⟩ := Node.call.inj hflow
    simp only [HashServer.exec, HashServer.hincrby]
    split
    · simpa [hget_hset_singleton] using hmode
    · exact hmode
  | done => cases hflow

theorem RateLocal.of_undrawn {s : HashServer} {q : AllowPoint} (hstarted : i ∈ Pool.started h)
    (hnew : i ∉ Pool.actors drawer h) (hq : Undrawn opened s q) : RateLocal opened i h s q := by
  cases q with
  | done => exact hq.elim
  | _ => exact ⟨hstarted, hnew, hq⟩

/-- A command of the call that neither writes nor draws. -/
theorem RateLocal.idle {s t : HashServer} {q : AllowPoint} {c : HashCmd} {r : c.Reply}
    (hshared : RateShared opened base h s) (hstarted : i ∈ Pool.started h)
    (hnew : i ∉ Pool.actors drawer h) (hidle : IsIdle (.issue i c r)) (hnow : s.now ≤ t.now)
    (hfields : ∀ field, t.hget field = s.hget field) (hq : Undrawn opened t q) :
    RateShared opened base (h ++ [⟨s, .issue i c r, t⟩]) t ∧
      RateLocal opened i (h ++ [⟨s, .issue i c r, t⟩]) t q := by
  have hquiet : drawer (.issue i c r) = none := drawer_of_idle hidle
  have hstart : Pool.started (h ++ [⟨s, .issue i c r, t⟩]) = Pool.started h :=
    Pool.started_snoc h _
  refine ⟨⟨hshared.1.idle hidle hnow hfields, hshared.2.quiet hstart hquiet⟩, ?_⟩
  refine .of_undrawn (hstart ▸ hstarted) ?_ hq
  rw [Pool.actors_of_none hquiet]
  exact hnew

/-- A call's own command, at each of its points. -/
theorem RateLocal.issue {b : RedisCircuitBreaker} {s : HashServer} {q : AllowPoint} {c : HashCmd}
    {next : c.Reply → AllowPoint} (hflow : allowFlow b q = .call c next)
    (hshared : RateShared opened base h s) (hlocal : RateLocal opened i h s q) :
    RateShared opened base
        (h ++ [⟨s, .issue i c (HashServer.exec c s).1, (HashServer.exec c s).2⟩])
        (HashServer.exec c s).2 ∧
      RateLocal opened i (h ++ [⟨s, .issue i c (HashServer.exec c s).1, (HashServer.exec c s).2⟩])
        (HashServer.exec c s).2 (next (HashServer.exec c s).1) := by
  obtain ⟨hstarted, hlocal⟩ := hlocal
  cases q with
  | mode =>
    obtain ⟨rfl, hnext⟩ := Node.call.inj hflow
    obtain rfl := eq_of_heq hnext
    obtain ⟨hnew, -⟩ := hlocal
    refine RateLocal.idle hshared hstarted hnew trivial (Int.le_refl _) (fun _ => rfl) ?_
    rcases hshared.1.mode with ⟨hopen, hopened, -⟩ | ⟨hhalf, -⟩
    · simpa [HashServer.exec, hopen, Undrawn] using hopened
    · simp [HashServer.exec, hhalf, Undrawn]
  | openUntil =>
    obtain ⟨rfl, hnext⟩ := Node.call.inj hflow
    obtain rfl := eq_of_heq hnext
    obtain ⟨hnew, hopened⟩ := hlocal
    obtain ⟨u, hu, hle⟩ := hshared.1.until_over hopened
    refine RateLocal.idle hshared hstarted hnew trivial (Int.le_refl _) (fun _ => rfl) ?_
    simp only [HashServer.exec, hu, asInt_pyStr]
    exact ⟨hopened, hle⟩
  | clock u =>
    obtain ⟨rfl, hnext⟩ := Node.call.inj hflow
    obtain rfl := eq_of_heq hnext
    obtain ⟨hnew, hopened, hle⟩ := hlocal
    refine RateLocal.idle hshared hstarted hnew trivial (Int.le_refl _) (fun _ => rfl) ?_
    simpa [HashServer.exec, not_lt.mpr hle, Undrawn] using hopened
  | write =>
    obtain ⟨rfl, hnext⟩ := Node.call.inj hflow
    obtain rfl := eq_of_heq hnext
    obtain ⟨hnew, hopened⟩ := hlocal
    have hquiet : ∀ m, drawer (.issue i (.hset m) ()) = none := fun _ => rfl
    have hstart : ∀ m t, Pool.started (h ++ [⟨s, .issue i (.hset m) (), t⟩]) = Pool.started h :=
      fun m t => Pool.started_snoc h _
    refine ⟨⟨hshared.1.write hopened rfl, hshared.2.quiet (hstart _ _) (hquiet _)⟩, ?_⟩
    refine .of_undrawn ((hstart _ _).symm ▸ hstarted) ?_ ⟨hopened, ?_⟩
    · rw [Pool.actors_of_none (hquiet _)]
      exact hnew
    · simp [HashServer.exec, hget_hset, Hash.set]
  | renew =>
    obtain ⟨rfl, hnext⟩ := Node.call.inj hflow
    obtain rfl := eq_of_heq hnext
    obtain ⟨hnew, hopened, hmode⟩ := hlocal
    refine RateLocal.idle hshared hstarted hnew trivial (Int.le_refl _)
      (fun field => hget_expire s _ field) ?_
    exact ⟨rfl, (hget_expire s _ _).trans hmode⟩
  | number mode =>
    obtain ⟨rfl, hnext⟩ := Node.call.inj hflow
    obtain rfl := eq_of_heq hnext
    obtain ⟨hnew, rfl, hmode⟩ := hlocal
    have hexec := hshared.1.hincrby hmode
    simp only [HashServer.exec, hexec]
    generalize hn : base + ((tally h).size : Int) + 1 = n
    have hdrawer : drawer (.issue i (.hincrby "half_open_requests" 1) (some n)) = some i := rfl
    have hstart : ∀ c r t, Pool.started (h ++ [⟨s, .issue i c r, t⟩]) = Pool.started h :=
      fun c r t => Pool.started_snoc h _
    refine ⟨⟨hshared.1.draw hmode hn.symm rfl rfl,
      hshared.2.act (hstart _ _ _) hdrawer hstarted hnew⟩,
      Pool.mem_started_append hstarted _, n, ?_, rfl⟩
    rw [draws_snoc]
    exact List.mem_append_right _ (List.mem_singleton.mpr rfl)
  | done => cases hflow

theorem rate_keeps (b : RedisCircuitBreaker) (opened : Bool) (base : Int) :
    Pool.Keeps HashServer.exec Tick (allowFlow b) .mode (RateShared opened base)
      (RateLocal opened) where
  start h s i hshared hnone := by
    have hstart : Pool.started (h ++ [⟨s, .start i, s⟩]) = Pool.started h ++ [i] :=
      Pool.started_snoc h _
    have honce : Pool.Once drawer (h ++ [⟨s, .start i, s⟩]) := hshared.2.start rfl rfl hnone
    refine ⟨⟨hshared.1.idle trivial (Int.le_refl _) fun _ => rfl, honce⟩, by rw [hstart]; simp,
      ?_, trivial⟩
    have hquiet : drawer (.start i) = none := rfl
    rw [Pool.actors_of_none hquiet]
    intro hmem
    obtain ⟨x, hx, hproc⟩ := Pool.mem_started (hshared.2.sub hmem)
    exact hnone x hx hproc
  issue h s i q c next hflow hshared hlocal := hlocal.issue hflow hshared
  passes h s t htick hshared := by
    have hfields : ∀ field, t.hget field = s.hget field := fun field => by
      simp [HashServer.hget, htick.2]
    have hstart : Pool.started (h ++ [⟨s, .env, t⟩]) = Pool.started h := Pool.started_snoc h _
    exact ⟨hshared.1.idle trivial htick.1 hfields,
      hshared.2.quiet hstart rfl⟩
  frame h s j q hshared hlocal := by
    refine ⟨fun i hij => ?_, fun i q' c next hij hflow _ => ?_, fun t htick => ?_⟩
    · exact hlocal.frame (by simpa [Pool.Label.proc] using hij) (Int.le_refl _) id
    · exact hlocal.frame (by simpa [Pool.Label.proc] using hij)
        (Int.le_of_eq (HashServer.exec_now c s).symm) (halfOpen_of_issue hflow s)
    · refine hlocal.frame (by simp [Pool.Label.proc]) htick.1 fun hmode => ?_
      simpa [HashServer.hget, htick.2] using hmode

end keeps

/-! ## The rate -/

/-- The call has returned that the request is admitted. -/
def IsAllowed (prog : Option (M CircuitBreakerDecision)) : Bool :=
  match prog with
  | some (.ret d) => d.allowed
  | _ => false

/-- The calls that have admitted their request. -/
def allowedCalls (p : AllowPool) (h : CallHistory) : List ℕ :=
  (Pool.started h).filter fun i => IsAllowed (p.procs i)

/-- Every call has returned. -/
def AllReturned (p : AllowPool) (h : CallHistory) : Prop :=
  ∀ i ∈ Pool.started h, ∃ d, p.procs i = some (.ret d)

/-- No two groups of an odd size. A breaker that is switched off counts nothing. -/
def EvenGroups (b : RedisCircuitBreaker) (h : CallHistory) : Prop :=
  if b.isEnabled then oddGroups h ≤ 1 else (Pool.started h).length ≤ 1

abbrev AllowStep (b : RedisCircuitBreaker) : AllowPool → CallLabel → AllowPool → Prop :=
  Pool.Step HashServer.exec b.allowRequest Tick

section rate
variable {b : RedisCircuitBreaker} {s : HashServer} {p : AllowPool}
  {tr : List (Transition AllowPool CallLabel)}

theorem exists_holds (hon : b.isEnabled = true) (hs : Recovering s)
    (hrun : Run (AllowStep b) (Pool.fresh s) tr p) : ∃ opened base,
    Pool.Holds (allowFlow b) (RateShared opened base) (RateLocal opened) (Pool.history tr) p := by
  have hdrawers : Pool.Once drawer ([] : CallHistory) := .nil
  cases hs with
  | @opened h u hkey hmode huntil hle =>
    refine ⟨true, 0, Pool.invariant (allow_follows hon) (rate_keeps b true 0) hrun ⟨?_, hdrawers⟩⟩
    constructor
    · exact fun _ => ⟨u, by simp [HashServer.hget, hkey, huntil], hle⟩
    · left
      simp [HashServer.hget, hkey, hmode, draws, tally]
    · simp [oddDraws, draws, tally]
    · simp
  | @halfOpen h r hkey hmode hrequests =>
    refine ⟨false, r, Pool.invariant (allow_follows hon) (rate_keeps b false r) hrun
      ⟨?_, hdrawers⟩⟩
    constructor
    · simp
    · right
      simp [HashServer.hget, hkey, hmode, hrequests, tally]
    · simp [oddDraws, draws, tally]
    · simp [tally]

theorem eq_done_of_ret {q : AllowPoint} {d : CircuitBreakerDecision}
    (h : Follows (allowFlow b) (.ret d) q) : q = .done d := by
  have hflow : allowFlow b q = .ret d := h
  cases q with
  | done d' =>
    obtain rfl := Node.ret.inj hflow
    rfl
  | _ => cases hflow

/-- The books: odd groups cost one admission for two. -/
theorem oddGroups_le_one_iff {opened : Bool} {base : Int} {h : CallHistory}
    (hs : RateStore opened base h s) :
    oddGroups h ≤ 1 ↔ 2 * (oddDraws h).length ≤ (draws h).length + 1 := by
  have hbooks := hs.books
  have hbase := hs.base_eq
  unfold oddGroups
  cases opened with
  | true =>
    obtain rfl : base = 0 := by simpa using hbase
    omega
  | false =>
    have hodd : (tally h).odd = 0 := by simpa using hbase
    omega

variable {opened : Bool} {base : Int} {h : CallHistory}

/-- A call that has returned returns what its number says. -/
theorem drawn_of_returned
    (hold : Pool.Holds (allowFlow b) (RateShared opened base) (RateLocal opened) h p) {i : ℕ}
    {d : CircuitBreakerDecision} (hi : p.procs i = some (.ret d)) :
    ∃ n, (i, n) ∈ draws h ∧ d.allowed = (n % 2 == 1) := by
  obtain ⟨q, hfollows, hlocal⟩ := hold.point i _ hi
  obtain rfl := eq_done_of_ret hfollows
  exact hlocal.2

theorem allowedCalls_le
    (hold : Pool.Holds (allowFlow b) (RateShared opened base) (RateLocal opened) h p) :
    (allowedCalls p h).length ≤ (oddDraws h).length := by
  have hsub : allowedCalls p h ⊆ (oddDraws h).map Prod.fst := by
    intro i hi
    obtain ⟨-, hallowed⟩ := List.mem_filter.mp hi
    unfold IsAllowed at hallowed
    split at hallowed
    · rename_i d hd
      obtain ⟨n, hn, hodd⟩ := drawn_of_returned hold hd
      exact List.mem_map.mpr ⟨(i, n), List.mem_filter.mpr ⟨hn, hodd ▸ hallowed⟩, rfl⟩
    · cases hallowed
  have hnodup : (allowedCalls p h).Nodup := hold.shared.2.started.filter _
  simpa using (List.subperm_of_subset hnodup hsub).length_le

theorem draws_le
    (hold : Pool.Holds (allowFlow b) (RateShared opened base) (RateLocal opened) h p) :
    (draws h).length ≤ (Pool.started h).length := by
  simpa [actors_drawer] using hold.shared.2.length_le

/-- Once every call has returned, each has drawn one number, and the odd ones are admitted. -/
theorem returned_eq
    (hold : Pool.Holds (allowFlow b) (RateShared opened base) (RateLocal opened) h p)
    (hall : AllReturned p h) : (draws h).length = (Pool.started h).length ∧
      (allowedCalls p h).length = (oddDraws h).length := by
  have honce : ((draws h).map Prod.fst).Nodup := actors_drawer h ▸ hold.shared.2.acted
  have hstarted : Pool.started h ⊆ Pool.actors drawer h := by
    intro i hi
    obtain ⟨d, hd⟩ := hall i hi
    obtain ⟨n, hn, -⟩ := drawn_of_returned hold hd
    rw [actors_drawer]
    exact List.mem_map.mpr ⟨(i, n), hn, rfl⟩
  have hodd : (oddDraws h).map Prod.fst ⊆ allowedCalls p h := by
    intro i hi
    obtain ⟨⟨i, n⟩, he, rfl⟩ := List.mem_map.mp hi
    obtain ⟨hdrawn, hn⟩ := List.mem_filter.mp he
    have hmem : i ∈ Pool.started h := by
      apply hold.shared.2.sub
      rw [actors_drawer]
      exact List.mem_map.mpr ⟨_, hdrawn, rfl⟩
    obtain ⟨d, hd⟩ := hall i hmem
    obtain ⟨n', hn', hallowed⟩ := drawn_of_returned hold hd
    have hsame : ((i, n) : ℕ × Int) = (i, n') :=
      List.inj_on_of_nodup_map honce hdrawn hn' rfl
    obtain rfl : n = n' := congrArg Prod.snd hsame
    refine List.mem_filter.mpr ⟨hmem, ?_⟩
    simp only [IsAllowed, hd]
    exact hallowed.trans hn
  have hnodup : ((oddDraws h).map Prod.fst).Nodup :=
    honce.sublist (List.Sublist.map _ List.filter_sublist)
  constructor
  · simpa [actors_drawer] using hold.shared.2.length_eq hstarted
  · apply Nat.le_antisymm (allowedCalls_le hold)
    simpa using (List.subperm_of_subset hnodup hodd).length_le

/-- With the breaker switched off every call is admitted. -/
theorem allowed_of_disabled (hoff : b.isEnabled = false)
    (hrun : Run (AllowStep b) (Pool.fresh s) tr p) :
    allowedCalls p (Pool.history tr) = Pool.started (Pool.history tr) := by
  have hbody : b.allowRequest = .ret ⟨true, modeClosed⟩ := by simp [allowRequest, hoff]
  have hholds : (∀ i ∈ Pool.started (Pool.history tr), p.procs i ≠ none) ∧
      ∀ i prog, p.procs i = some prog → prog = .ret ⟨true, modeClosed⟩ := by
    refine hrun.recorded (I := fun tr p =>
      (∀ i ∈ Pool.started (Pool.history tr), p.procs i ≠ none) ∧
        ∀ i prog, p.procs i = some prog → prog = .ret ⟨true, modeClosed⟩) ?_
      ⟨by simp [Pool.started], by simp [Pool.fresh]⟩
    rintro tr p l q ⟨hstarted, hret⟩ hstep
    cases hstep with
    | @start i hi =>
      constructor
      · intro j hj
        simp only [Pool.history_append, Pool.history_cons, Pool.history_nil,
          Pool.started_snoc] at hj
        by_cases hij : j = i
        · simp [hij]
        · simp only [Function.update_of_ne hij]
          exact hstarted j (by simpa [hij] using hj)
      · intro j prog hj
        by_cases hij : j = i
        · simp only [hij, Function.update_self, Option.some.injEq] at hj
          exact hj ▸ hbody
        · exact hret j prog (by simpa [Function.update_of_ne hij] using hj)
    | @issue i c k hi => exact absurd (hret i _ hi) (by simp)
    | env =>
      refine ⟨fun j hj => hstarted j ?_, hret⟩
      simpa only [Pool.history_append, Pool.history_cons, Pool.history_nil,
        Pool.started_snoc] using hj
  refine List.filter_eq_self.mpr fun i hi => ?_
  obtain ⟨prog, hprog⟩ := Option.ne_none_iff_exists'.mp (hholds.1 i hi)
  obtain rfl := hholds.2 i prog hprog
  simp [IsAllowed, hprog]

/-- Of the calls made while the breaker recovers at most half, rounded up, are admitted, if at
most one group of requests is odd; and once all have returned, only then. -/
theorem admission_rate_iff (hs : Recovering s) (hrun : Run (AllowStep b) (Pool.fresh s) tr p) :
    (EvenGroups b (Pool.history tr) → (allowedCalls p (Pool.history tr)).length ≤
      ((Pool.started (Pool.history tr)).length + 1) / 2) ∧
    (AllReturned p (Pool.history tr) → ((allowedCalls p (Pool.history tr)).length ≤
      ((Pool.started (Pool.history tr)).length + 1) / 2 ↔ EvenGroups b (Pool.history tr))) := by
  cases hon : b.isEnabled with
  | false =>
    rw [allowed_of_disabled hon hrun]
    simp only [EvenGroups, hon, Bool.false_eq_true, if_false]
    omega
  | true =>
    obtain ⟨opened, base, hold⟩ := exists_holds hon hs hrun
    have hle := allowedCalls_le hold
    have hdraws := draws_le hold
    simp only [EvenGroups, hon, if_true, oddGroups_le_one_iff hold.shared.1]
    refine ⟨fun hgroups => by omega, fun hall => ?_⟩
    obtain ⟨hnumbers, hodd⟩ := returned_eq hold hall
    omega

end rate

/-- A breaker whose cooldown is over. -/
def cooledServer : HashServer where
  now := 0
  key := some ⟨(Hash.empty.set [("mode", modeOpen), ("failure_count", pyStr (3 : Int)),
    ("last_timeout_ms", pyStr (-60000 : Int)), ("open_until_ms", pyStr (0 : Int)),
    ("half_open_successes", pyStr (0 : Int)), ("half_open_requests", pyStr (0 : Int))]).fields,
    some 60000⟩

theorem cooledServer_recovering : Recovering cooledServer :=
  .opened (u := 0) rfl (by simp [Hash.set]) (by simp [Hash.set]) (by decide)

/-- One of two calls, where the one that is delayed has written HALF_OPEN before the other one asks:
they are one group. -/
theorem admission_rate_iff_two : ∃ tr p,
    Run (AllowStep defaultBreaker) (Pool.fresh cooledServer) tr p ∧
    Pool.started (Pool.history tr) = [0, 1] ∧ allowedCalls p (Pool.history tr) = [1] ∧
    EvenGroups defaultBreaker (Pool.history tr) := by
  obtain ⟨t, hsecond, u, hfirst⟩ : ∃ t, defaultBreaker.allowRequest.run HashServer.exec
      (defaultBreaker.allowRequest.advance HashServer.exec 4 cooledServer).2 =
        (.ok ⟨true, modeHalfOpen⟩, t) ∧ ∃ u,
      (defaultBreaker.allowRequest.advance HashServer.exec 4 cooledServer).1.run HashServer.exec t =
        (.ok ⟨false, modeHalfOpen⟩, u) := ⟨_, rfl, _, rfl⟩
  obtain ⟨tr, p, hrun, -, hret₀, hret₁, hcalls⟩ := Pool.exists_contended_run 4 hsecond hfirst
  have hallowed : allowedCalls p (Pool.history tr) = [1] := by
    rw [allowedCalls, hcalls]
    simp [IsAllowed, hret₀, hret₁]
  have hall : AllReturned p (Pool.history tr) := by
    intro i hi
    rw [hcalls] at hi
    rcases List.mem_pair.mp hi with rfl | rfl
    · exact ⟨_, hret₀⟩
    · exact ⟨_, hret₁⟩
  refine ⟨tr, p, hrun, hcalls, hallowed,
    ((admission_rate_iff cooledServer_recovering hrun).2 hall).mp ?_⟩
  rw [hallowed, hcalls]
  exact Nat.le_refl 1

/-- Both of two calls are admitted where the first one has seen OPEN and writes HALF_OPEN after
the second one has been numbered. -/
theorem both_of_two_admitted : ∃ tr p,
    Run (AllowStep defaultBreaker) (Pool.fresh cooledServer) tr p ∧
    Pool.started (Pool.history tr) = [0, 1] ∧ allowedCalls p (Pool.history tr) = [0, 1] ∧
    ¬ (allowedCalls p (Pool.history tr)).length ≤
      ((Pool.started (Pool.history tr)).length + 1) / 2 := by
  obtain ⟨t, hsecond, u, hfirst⟩ : ∃ t, defaultBreaker.allowRequest.run HashServer.exec
      (defaultBreaker.allowRequest.advance HashServer.exec 1 cooledServer).2 =
        (.ok ⟨true, modeHalfOpen⟩, t) ∧ ∃ u,
      (defaultBreaker.allowRequest.advance HashServer.exec 1 cooledServer).1.run HashServer.exec t =
        (.ok ⟨true, modeHalfOpen⟩, u) := ⟨_, rfl, _, rfl⟩
  obtain ⟨tr, p, hrun, -, hret₀, hret₁, hcalls⟩ := Pool.exists_contended_run 1 hsecond hfirst
  have hallowed : allowedCalls p (Pool.history tr) = [0, 1] := by
    rw [allowedCalls, hcalls]
    simp [IsAllowed, hret₀, hret₁]
  refine ⟨tr, p, hrun, hcalls, hallowed, ?_⟩
  rw [hallowed, hcalls]
  exact Nat.not_succ_le_self 1

end BaseWebService.CircuitBreaker
