import BaseWebService.Library.Interference
import BaseWebService.CircuitBreaker.Cooldown

/-!
# The breaker cannot lock out a service

Here a call takes time: between its commands the clock moves on and Redis may drop the key, so
that a command can meet a key the call has just read and that is now gone. The invariant is
about fields and not about phases, because such a call can leave a hash that stores no phase.
-/

namespace BaseWebService.CircuitBreaker

open Library Redis RedisCircuitBreaker

/-- The clock moves on, and the key may be dropped once its expiry has lapsed. -/
inductive Lapse : HashServer → HashServer → Prop where
  | tick {s : HashServer} {time : Int} : s.now ≤ time → Lapse s { s with now := time }
  | drop {s : HashServer} {h : Hash} {d : Int} : s.key = some h → h.deadline = some d →
      d ≤ s.now → Lapse s { s with key := none }

/-- A call, executed while no other call is, or the loss of the key between two calls. -/
inductive SlowStep (b : RedisCircuitBreaker) : HashServer → Event → HashServer → Prop where
  | call {s t : HashServer} {request : ℕ} {op : Op} {time : Int}
      {decision : Option CircuitBreakerDecision} : s.now ≤ time →
      Interfered HashServer.exec Lapse (op.prog b) { s with now := time } (.ok decision) t →
      SlowStep b s (.call request op time decision) t
  | expire {s : HashServer} {h : Hash} {d time : Int} :
      s.now ≤ time → s.key = some h → h.deadline = some d → d ≤ time →
      SlowStep b s (.expire time) ⟨time, none⟩

/-- States a run from an empty Redis passes through. -/
def SlowReachable (b : RedisCircuitBreaker) (s : HashServer) : Prop :=
  ∃ start, start.key = none ∧ Reaches (SlowStep b) start s

/-- A success or the loss of the key: neither a request nor a failure. -/
def Event.isSuccessOrExpiry : Event → Bool
  | .call _ .recordSuccess _ _ | .expire _ => true
  | _ => false

/-- Every atomic call is one that nothing interferes with. -/
theorem Step.slow {b : RedisCircuitBreaker} {s t : HashServer} {e : Event} (h : Step b s e t) :
    SlowStep b s e t := by
  cases h with
  | call hle hrun => exact .call hle (.of_run hrun)
  | expire hle hkey hdeadline hdue => exact .expire hle hkey hdeadline hdue

theorem Reachable.slow {b : RedisCircuitBreaker} {s : HashServer} (h : Reachable b s) :
    SlowReachable b s := by
  obtain ⟨start, hstart, tr, hrun⟩ := h
  refine ⟨start, hstart, ?_⟩
  induction hrun with
  | nil => exact .refl start
  | snoc _ hstep ih => exact ih.run (.single hstep.slow)

namespace RedisCircuitBreaker

theorem allowRequest_of_isEnabled {b : RedisCircuitBreaker} (hon : b.isEnabled = true) :
    b.allowRequest =
      b.allowRequestTry.handle fun _ => .ret { allowed := true, mode := modeClosed } := by
  rw [allowRequest, hon]
  rfl

end RedisCircuitBreaker

/-! ## What the fields hold -/

/-- Every field can be read back, and OPEN comes with the end of its cooldown. -/
structure Legible (fields : String → Option String) : Prop where
  mode : ∀ text, fields "mode" = some text →
    text = modeClosed ∨ text = modeOpen ∨ text = modeHalfOpen
  numeric : ∀ field text, field ≠ "mode" → fields field = some text → ∃ n, text = pyStr n
  openUntil : fields "mode" = some modeOpen → fields "open_until_ms" ≠ none

/-- A mapping that names a mode and all that the mode needs. -/
def Complete (mapping : List (String × String)) : Prop :=
  Legible (Hash.empty.set mapping).fields ∧ (Hash.empty.set mapping).fields "mode" ≠ none

/-- What the methods write keeps the hash legible. -/
def WritesLegibly : HashCmd → Prop
  | .hset mapping => Complete mapping
  | .hincrby field _ => field ≠ "mode"
  | _ => True

theorem fields_set (h : Hash) (mapping : List (String × String)) (field : String) :
    (h.set mapping).fields field =
      ((Hash.empty.set mapping).fields field).or (h.fields field) := by
  induction mapping using List.reverseRecOn with
  | nil => rfl
  | append_singleton mapping e ih =>
    simp only [Hash.set, List.foldl_append, List.foldl_cons, List.foldl_nil] at ih ⊢
    by_cases hfield : field = e.1
    · subst hfield
      simp
    · simpa [Function.update_of_ne hfield] using ih

theorem hget_hset (s : HashServer) (mapping : List (String × String)) (field : String) :
    (s.hset mapping).hget field = ((Hash.empty.set mapping).fields field).or (s.hget field) := by
  have hset := fields_set (s.key.getD .empty) mapping field
  cases hkey : s.key with
  | none => simp [HashServer.hget, HashServer.hset, hkey, Hash.set, Hash.empty]
  | some h => simpa [HashServer.hget, HashServer.hset, hkey] using hset

@[simp] theorem hget_expire (s : HashServer) (seconds : Int) (field : String) :
    (s.expire seconds).hget field = s.hget field := by
  cases hkey : s.key <;> simp [HashServer.hget, HashServer.expire, hkey]

theorem Legible.hset {s : HashServer} (h : Legible s.hget) {mapping : List (String × String)}
    (hmapping : Complete mapping) : Legible (s.hset mapping).hget := by
  obtain ⟨hlegible, hmode⟩ := hmapping
  obtain ⟨mode, hmode⟩ := Option.ne_none_iff_exists'.mp hmode
  constructor
  · intro text htext
    apply hlegible.mode text
    rw [hget_hset, hmode] at htext
    rwa [hmode]
  · intro field text hfield htext
    rw [hget_hset, Option.or_eq_some_iff] at htext
    rcases htext with htext | ⟨-, htext⟩
    · exact hlegible.numeric field text hfield htext
    · exact h.numeric field text hfield htext
  · intro hopen
    rw [hget_hset, hmode] at hopen
    have huntil := hlegible.openUntil (hmode.trans hopen)
    rw [hget_hset]
    intro hnone
    exact huntil (Option.or_eq_none_iff.mp hnone).1

/-- A counter that is missing or holds a number can be incremented. -/
theorem Legible.hincrby {s : HashServer} (h : Legible s.hget) {field : String}
    (hfield : field ≠ "mode") (amount : Int) :
    ∃ n, s.hincrby field amount = (some (n + amount), s.hset [(field, pyStr (n + amount))]) ∧
      (s.hget field = none ∧ n = 0 ∨ s.hget field = some (pyStr n)) := by
  cases hold : s.hget field with
  | none =>
    have hzero : pyInt "0" = some 0 := by decide
    exact ⟨0, by simp [HashServer.hincrby, hold, hzero], Or.inl ⟨rfl, rfl⟩⟩
  | some text =>
    obtain ⟨n, rfl⟩ := h.numeric field text hfield hold
    exact ⟨n, by simp [HashServer.hincrby, hold], Or.inr rfl⟩

theorem hget_hset_singleton (s : HashServer) (field value other : String) :
    (s.hset [(field, value)]).hget other = if other = field then some value else s.hget other := by
  rw [hget_hset]
  by_cases hother : other = field
  · simp [Hash.set, hother]
  · simp [Hash.set, hother, Hash.empty]

theorem Legible.hset_singleton {s : HashServer} (h : Legible s.hget) {field : String}
    (hfield : field ≠ "mode") (n : Int) : Legible (s.hset [(field, pyStr n)]).hget := by
  constructor
  · intro text htext
    rw [hget_hset_singleton, if_neg (Ne.symm hfield)] at htext
    exact h.mode text htext
  · intro other text hother htext
    rw [hget_hset_singleton] at htext
    split_ifs at htext with heq
    · exact ⟨n, (Option.some.inj htext).symm⟩
    · exact h.numeric other text hother htext
  · intro hopen
    rw [hget_hset_singleton, if_neg (Ne.symm hfield)] at hopen
    rw [hget_hset_singleton]
    split_ifs
    · simp
    · exact h.openUntil hopen

theorem Legible.exec {c : HashCmd} {s : HashServer} (hc : WritesLegibly c) (h : Legible s.hget) :
    Legible (HashServer.exec c s).2.hget := by
  cases c with
  | hset mapping => exact h.hset hc
  | hincrby field amount =>
    obtain ⟨n, hexec, -⟩ := h.hincrby hc amount
    simp only [HashServer.exec, hexec]
    exact h.hset_singleton hc _
  | expire seconds =>
    have hsame : (s.expire seconds).hget = s.hget := funext (hget_expire s seconds)
    exact hsame ▸ h
  | hget | time => exact h

theorem legible_of_key_none {s : HashServer} (h : s.key = none) : Legible s.hget := by
  have hnone : ∀ field, s.hget field = none := fun field => by simp [HashServer.hget, h]
  constructor <;> simp [hnone]

theorem Legible.lapse {s t : HashServer} (hst : Lapse s t) (h : Legible s.hget) :
    Legible t.hget := by
  cases hst with
  | tick => exact h
  | drop => exact legible_of_key_none rfl

/-! ## The methods write legibly -/

namespace RedisCircuitBreaker

variable (b : RedisCircuitBreaker)

theorem only_hset {mapping : List (String × String)} (h : Complete mapping) :
    (b.hsetState mapping).Only WritesLegibly :=
  ⟨h, fun _ => ⟨trivial, fun _ => trivial⟩⟩

theorem asInt_cases (value : Option String) :
    (∃ n, asInt value = .ret n) ∨
      ∃ e, asInt value = .raise e := by
  unfold asInt
  split
  · exact Or.inl ⟨_, rfl⟩
  · split_ifs
    · exact Or.inl ⟨_, rfl⟩
    · split
      · exact Or.inl ⟨_, rfl⟩
      · exact Or.inr ⟨_, rfl⟩

theorem only_asInt (value : Option String) {P : HashCmd → Prop} : (asInt value).Only P := by
  rcases asInt_cases value with ⟨n, hn⟩ | ⟨e, he⟩
  · exact hn ▸ trivial
  · exact he ▸ trivial

theorem only_increment {field : String} {P : HashCmd → Prop} (h : P (.hincrby field 1)) :
    (increment field).Only P := by
  refine ⟨h, fun r => ?_⟩
  cases r <;> trivial

/-- A mapping written by the methods: a mode, then numbers. -/
theorem complete_of_numbers {mapping : List (String × String)}
    (hmode : (Hash.empty.set mapping).fields "mode" = some modeClosed ∨
      (Hash.empty.set mapping).fields "mode" = some modeHalfOpen ∨
      (Hash.empty.set mapping).fields "mode" = some modeOpen ∧
        (Hash.empty.set mapping).fields "open_until_ms" ≠ none)
    (hnumbers : ∀ e ∈ mapping, e.1 ≠ "mode" → ∃ n, e.2 = pyStr n) : Complete mapping := by
  have hnumeric : ∀ field text, field ≠ "mode" →
      (Hash.empty.set mapping).fields field = some text → ∃ n, text = pyStr n := by
    clear hmode
    intro field text hfield
    induction mapping using List.reverseRecOn with
    | nil => simp [Hash.set, Hash.empty]
    | append_singleton mapping e ih =>
      simp only [Hash.set, List.foldl_append, List.foldl_cons, List.foldl_nil] at ih ⊢
      by_cases heq : field = e.1
      · subst heq
        rw [Function.update_self]
        rintro ⟨rfl⟩
        exact hnumbers e (by simp) hfield
      · rw [Function.update_of_ne heq]
        exact ih fun e' he' => hnumbers e' (List.mem_append_left _ he')
  rcases hmode with hmode | hmode | ⟨hmode, huntil⟩
  · exact ⟨⟨fun text h => by simp_all, hnumeric, fun h => by simp_all⟩, by simp [hmode]⟩
  · exact ⟨⟨fun text h => by simp_all, hnumeric, fun h => by simp_all⟩, by simp [hmode]⟩
  · exact ⟨⟨fun text h => by simp_all, hnumeric, fun _ => huntil⟩, by simp [hmode]⟩

theorem openState_writes (now : Int) (failures : Option Int) :
    (b.openState now failures).Only WritesLegibly := by
  apply only_hset
  apply complete_of_numbers
  · exact Or.inr (Or.inr (by simp [Hash.set]))
  · simp

theorem closeState_writes : b.closeState.Only WritesLegibly := by
  apply only_hset
  apply complete_of_numbers
  · exact Or.inl (by simp [Hash.set])
  · simp

/-- The write that starts HALF_OPEN. -/
theorem complete_halfOpen : Complete [("mode", modeHalfOpen),
    ("half_open_successes", pyStr (0 : Int)), ("half_open_requests", pyStr (0 : Int))] := by
  apply complete_of_numbers
  · exact Or.inr (Or.inl (by simp [Hash.set]))
  · simp

theorem probe_writes (mode : String) : (probe mode).Only WritesLegibly :=
  (only_increment (by simp [WritesLegibly])).bind fun _ => trivial

/-- A command that only reads. -/
theorem only_perform {P : HashCmd → Prop} {c : HashCmd} (h : P c) :
    (Prog.perform c : M c.Reply).Only P := ⟨h, fun _ => trivial⟩

theorem allowRequestTry_writes : b.allowRequestTry.Only WritesLegibly := by
  refine (only_perform trivial).bind fun cachedMode => ?_
  dsimp only
  split_ifs
  · trivial
  · refine (only_perform trivial).bind fun cachedUntil => ?_
    refine (only_asInt _).bind fun u => ?_
    refine (only_perform trivial).bind fun now => ?_
    split_ifs
    · trivial
    · exact (b.only_hset complete_halfOpen).bind fun _ => probe_writes _
  · exact probe_writes _

theorem allowRequest_writes : b.allowRequest.Only WritesLegibly := by
  cases hon : b.isEnabled with
  | false => simp [allowRequest, hon, Prog.Only]
  | true =>
    rw [allowRequest_of_isEnabled hon]
    exact b.allowRequestTry_writes.handle fun _ => trivial

theorem recordFailure_writes : b.recordFailure.Only WritesLegibly := by
  have hclosed : ∀ failures now : Int, Complete [("mode", modeClosed),
      ("failure_count", pyStr failures), ("last_timeout_ms", pyStr now)] := by
    intro failures now
    apply complete_of_numbers
    · exact Or.inl (by simp [Hash.set])
    · simp
  unfold recordFailure
  split_ifs
  · trivial
  apply Prog.Only.handle
  · refine (only_perform trivial).bind fun cachedMode => ?_
    refine (only_perform trivial).bind fun (now : Int) => ?_
    dsimp only
    split_ifs
    · exact b.openState_writes _ _
    refine (only_perform trivial).bind fun cachedLast => ?_
    refine (only_asInt _).bind fun last => ?_
    refine (only_perform trivial).bind fun cachedCount => ?_
    refine (only_asInt _).bind fun count => ?_
    generalize (if now - last > b.config.timeoutWindowSeconds * 1000 then 1
      else count + 1 : Int) = failures
    split_ifs
    · exact b.openState_writes _ _
    · exact b.only_hset (hclosed _ _)
  · exact fun _ => trivial

theorem recordSuccess_writes : b.recordSuccess.Only WritesLegibly := by
  unfold recordSuccess
  split_ifs
  · trivial
  apply Prog.Only.handle
  · refine (only_perform trivial).bind fun cachedMode => ?_
    dsimp only
    split_ifs
    · refine (only_increment (by simp [WritesLegibly])).bind fun n => ?_
      split_ifs
      · trivial
      · exact b.closeState_writes
    · exact b.closeState_writes
  · exact fun _ => trivial

theorem opProg_writes (op : Op) : (op.prog b).Only WritesLegibly := by
  cases op with
  | allowRequest => exact b.allowRequest_writes.bind fun _ => trivial
  | recordFailure | recordTimeout => exact b.recordFailure_writes.bind fun _ => trivial
  | recordSuccess => exact b.recordSuccess_writes.bind fun _ => trivial

end RedisCircuitBreaker

theorem SlowStep.legible {b : RedisCircuitBreaker} {s t : HashServer} {e : Event}
    (hs : Legible s.hget) (h : SlowStep b s e t) : Legible t.hget := by
  cases h with
  | call hle hrun =>
    exact hrun.invariant (I := fun s => Legible s.hget) (fun _ _ hc h => h.exec hc)
      (fun _ _ hst h => h.lapse hst) (b.opProg_writes _) hs
  | expire => exact legible_of_key_none rfl

theorem SlowReachable.legible {b : RedisCircuitBreaker} {s : HashServer} (h : SlowReachable b s) :
    Legible s.hget := by
  obtain ⟨start, hstart, tr, hrun⟩ := h
  apply hrun.invariant (I := fun s => Legible s.hget)
  · intro s e t hs hstep
    exact hstep.legible hs
  · exact legible_of_key_none hstart

/-! ## What a call decides -/

namespace RedisCircuitBreaker

variable {b : RedisCircuitBreaker}

/-- The next request is due: no cooldown is stored and the number of the last one was even. -/
structure Due (s : HashServer) : Prop where
  mode : s.hget "mode" ≠ some modeOpen
  requests : ∀ r, s.hget "half_open_requests" = some (pyStr r) → r % 2 = 0

theorem due_of_key_none {s : HashServer} (h : s.key = none) : Due s := by
  have hnone : ∀ field, s.hget field = none := fun field => by simp [HashServer.hget, h]
  constructor <;> simp [hnone]

theorem Due.lapse {s t : HashServer} (hst : Lapse s t) (h : Due s) : Due t := by
  cases hst with
  | tick => exact ⟨h.mode, h.requests⟩
  | drop => exact due_of_key_none rfl

/-- The commands that leave the parity of the requests alone, or clear it. -/
def Clears : HashCmd → Prop
  | .hset mapping => (Hash.empty.set mapping).fields "mode" = some modeClosed ∧
      (Hash.empty.set mapping).fields "half_open_requests" = some (pyStr (0 : Int))
  | .hincrby field _ => field = "half_open_successes"
  | _ => True

theorem recordSuccess_clears : b.recordSuccess.Only Clears := by
  have hclose : b.closeState.Only Clears :=
    ⟨by simp [Clears, Hash.set], fun _ => ⟨trivial, fun _ => trivial⟩⟩
  unfold recordSuccess
  split_ifs
  · trivial
  apply Prog.Only.handle
  · refine (only_perform trivial).bind fun cachedMode => ?_
    dsimp only
    split_ifs
    · have hsuccesses : Clears (.hincrby "half_open_successes" 1) := rfl
      refine (only_increment hsuccesses).bind fun n => ?_
      split_ifs
      · trivial
      · exact hclose
    · exact hclose
  · exact fun _ => trivial

theorem Due.exec {c : HashCmd} {s : HashServer} (hc : Clears c) (h : Due s) :
    Due (HashServer.exec c s).2 := by
  cases c with
  | hset mapping =>
    obtain ⟨hmode, hrequests⟩ := hc
    constructor
    · simp [HashServer.exec, hget_hset, hmode]
    · intro r hr
      simp only [HashServer.exec, hget_hset, hrequests, Option.some_or, Option.some.injEq] at hr
      obtain rfl := pyStr_injective hr
      rfl
  | hincrby field amount =>
    obtain rfl : field = "half_open_successes" := hc
    simp only [HashServer.exec, HashServer.hincrby]
    split
    · constructor
      · simpa [hget_hset_singleton] using h.mode
      · simpa [hget_hset_singleton] using h.requests
    · exact h
  | expire seconds =>
    constructor
    · simpa [HashServer.exec] using h.mode
    · simpa [HashServer.exec] using h.requests
  | hget | time => exact ⟨h.mode, h.requests⟩

/-- A request that is due gets an odd number, also where the key is lost on the way. -/
theorem probe_of_due {s t : HashServer} {mode : String} {d : CircuitBreakerDecision}
    (hlegible : Legible s.hget) (hdue : Due s)
    (h : Interfered HashServer.exec Lapse (probe mode) s (.ok d) t) : d.allowed = true := by
  obtain ⟨u, ⟨hlegible, hdue⟩, h⟩ := h.call_inv (J := fun u => Legible u.hget ∧ Due u)
    (fun _ _ hst h => ⟨h.1.lapse hst, h.2.lapse hst⟩) ⟨hlegible, hdue⟩
  have hfield : "half_open_requests" ≠ "mode" := by decide
  obtain ⟨n, hexec, hn⟩ := hlegible.hincrby hfield 1
  have heven : n % 2 = 0 := by
    rcases hn with ⟨-, rfl⟩ | hn
    · rfl
    · exact hdue.requests n hn
  simp only [HashServer.exec, hexec] at h
  obtain ⟨hd, -⟩ := h.ret_inv
  obtain rfl := Except.ok.inj hd
  simp
  omega

/-- A probe that is rejected makes the next one due. -/
theorem due_of_probe {s t : HashServer} {mode : String} {d : CircuitBreakerDecision}
    (hlegible : Legible s.hget) (hmode : s.hget "mode" ≠ some modeOpen)
    (h : Interfered HashServer.exec Lapse (probe mode) s (.ok d) t) :
    d.allowed = true ∨ Due t := by
  have hstable : ∀ s t : HashServer, Lapse s t →
      Legible s.hget ∧ s.hget "mode" ≠ some modeOpen →
      Legible t.hget ∧ t.hget "mode" ≠ some modeOpen := by
    rintro s t hst ⟨hlegible, hmode⟩
    refine ⟨hlegible.lapse hst, ?_⟩
    cases hst with
    | tick => exact hmode
    | drop => exact (due_of_key_none rfl).mode
  obtain ⟨u, ⟨hlegible, hmode⟩, h⟩ := h.call_inv hstable ⟨hlegible, hmode⟩
  have hfield : "half_open_requests" ≠ "mode" := by decide
  obtain ⟨n, hexec, -⟩ := hlegible.hincrby hfield 1
  simp only [HashServer.exec, hexec] at h
  by_cases hodd : (n + 1) % 2 = 1
  · left
    obtain ⟨hd, -⟩ := h.ret_inv
    obtain rfl := Except.ok.inj hd
    simpa using hodd
  · right
    refine Interfered.stable_of_reflTransGen (fun _ _ hst h => Due.lapse hst h) ?_ h.ret_inv.2
    constructor
    · simpa [hget_hset_singleton] using hmode
    · intro r hr
      simp only [hget_hset_singleton, if_true, Option.some.injEq] at hr
      obtain rfl := pyStr_injective hr
      omega

/-- No cooldown is going on. -/
def Over (s : HashServer) : Prop :=
  s.hget "mode" = some modeOpen → ∀ u, s.hget "open_until_ms" = some (pyStr u) → u ≤ s.now

theorem Over.lapse {s t : HashServer} (hst : Lapse s t) (h : Over s) : Over t := by
  cases hst with
  | tick hle => exact fun hopen u hu => (h hopen u hu).trans hle
  | drop => exact fun hopen => absurd hopen (due_of_key_none rfl).mode

theorem allowed_of_ret {s t : HashServer} {d : CircuitBreakerDecision} {mode : String}
    (h : Interfered HashServer.exec Lapse (.ret ⟨true, mode⟩ : M CircuitBreakerDecision) s (.ok d)
      t) : d.allowed = true := by
  obtain ⟨hd, -⟩ := h.ret_inv
  exact Except.ok.inj hd ▸ rfl

/-- The part of `allow_request` written for OPEN. -/
theorem allowed_of_over {s t : HashServer} {d : CircuitBreakerDecision} (hlegible : Legible s.hget)
    (hover : ∀ u, s.hget "open_until_ms" = some (pyStr u) → u ≤ s.now)
    (h : Interfered HashServer.exec Lapse (do
      let cachedOpenUntilMs ← hget "open_until_ms"
      let openUntilMs ← asInt (some (str cachedOpenUntilMs))
      let nowMs ← hashTime
      if nowMs < openUntilMs then
        pure { allowed := false, mode := modeOpen }
      else do
        b.hsetState
          [("mode", modeHalfOpen),
           ("half_open_successes", pyStr (0 : Int)),
           ("half_open_requests", pyStr (0 : Int))]
        probe modeHalfOpen) s (.ok d) t) : d.allowed = true := by
  -- The reply to `HGET open_until_ms` is the end of a cooldown that is over, or nothing.
  obtain ⟨u, ⟨hlegible, hover⟩, h⟩ := h.call_inv
    (J := fun u => Legible u.hget ∧ ∀ v, u.hget "open_until_ms" = some (pyStr v) → v ≤ u.now)
    (fun _ _ hst h => ⟨h.1.lapse hst, by
      cases hst with
      | tick hle => exact fun v hv => (h.2 v hv).trans hle
      | drop => simp [HashServer.hget]⟩) ⟨hlegible, hover⟩
  change Interfered _ _ ((.ret (u.hget "open_until_ms") : M (Option String)) >>= _) u _ t at h
  rw [Prog.ret_bind] at h
  cases huntil : u.hget "open_until_ms" with
  | none =>
    rw [huntil, asInt_none, Prog.raise_bind] at h
    exact absurd h.raise_inv (by simp)
  | some text =>
    obtain ⟨v, rfl⟩ := hlegible.numeric "open_until_ms" text (by decide) huntil
    rw [huntil, asInt_pyStr, Prog.ret_bind] at h
    obtain ⟨w, ⟨hlegible, hnow⟩, h⟩ := h.call_inv
      (J := fun w => Legible w.hget ∧ v ≤ w.now) (fun _ _ hst h => ⟨h.1.lapse hst, by
        cases hst with
        | tick hle => exact h.2.trans hle
        | drop => exact h.2⟩) ⟨hlegible, hover v huntil⟩
    change Interfered _ _ ((.ret w.now : M Int) >>= _) w _ t at h
    rw [Prog.ret_bind, if_neg (by omega)] at h
    -- HALF_OPEN is written with no request numbered yet.
    obtain ⟨x, hlegible, h⟩ := h.call_inv (fun _ _ hst h => Legible.lapse hst h) hlegible
    have hdue : Due (x.hset [("mode", modeHalfOpen), ("half_open_successes", pyStr (0 : Int)),
        ("half_open_requests", pyStr (0 : Int))]) := by
      constructor
      · simp [hget_hset, Hash.set]
      · intro r hr
        simp only [hget_hset, Hash.set, List.foldl_cons, List.foldl_nil, Function.update_self,
          Option.some_or, Option.some.injEq] at hr
        obtain rfl := pyStr_injective hr
        rfl
    obtain ⟨y, ⟨hlegible, hdue⟩, h⟩ := h.call_inv
      (J := fun y => Legible y.hget ∧ Due y) (fun _ _ hst h => ⟨h.1.lapse hst, h.2.lapse hst⟩)
      ⟨hlegible.hset complete_halfOpen, hdue⟩
    have hexpire : Clears (.expire b.stateTtlSeconds) := trivial
    have hwrites : WritesLegibly (.expire b.stateTtlSeconds) := trivial
    exact probe_of_due (hlegible.exec hwrites) (hdue.exec hexpire) h

/-- With no cooldown going on, a request is admitted or takes its number in HALF_OPEN. -/
theorem allowRequest_over {s t : HashServer} {d : CircuitBreakerDecision}
    (hlegible : Legible s.hget) (hover : Over s)
    (h : Interfered HashServer.exec Lapse b.allowRequest s (.ok d) t) :
    d.allowed = true ∨ ∃ u, Legible u.hget ∧ (Due s → Due u) ∧
      u.hget "mode" = some modeHalfOpen ∧
      Interfered HashServer.exec Lapse (probe modeHalfOpen) u (.ok d) t := by
  cases hon : b.isEnabled with
  | false =>
    left
    rw [allowRequest, hon] at h
    obtain ⟨hd, -⟩ := h.ret_inv
    exact Except.ok.inj hd ▸ rfl
  | true =>
    rw [allowRequest_of_isEnabled hon] at h
    rcases h.handle_inv with ⟨a, ha, h⟩ | ⟨e, u, -, h⟩
    · obtain rfl := Except.ok.inj ha
      obtain ⟨u, ⟨hlegible, hover, hdue⟩, h⟩ := h.call_inv
        (J := fun u => Legible u.hget ∧ Over u ∧ (Due s → Due u))
        (fun _ _ hst h => ⟨h.1.lapse hst, h.2.1.lapse hst, fun hs => (h.2.2 hs).lapse hst⟩)
        ⟨hlegible, hover, id⟩
      change Interfered _ _ ((.ret (u.hget "mode") : M (Option String)) >>= _) u _ t at h
      rw [Prog.ret_bind] at h
      cases hmode : u.hget "mode" with
      | none =>
        rw [hmode] at h
        exact Or.inl (allowed_of_ret h)
      | some mode =>
        rw [hmode] at h
        rcases hlegible.mode mode hmode with rfl | rfl | rfl
        · exact Or.inl (allowed_of_ret h)
        · simp only [modes_differ, if_false, if_true] at h
          exact Or.inl (allowed_of_over hlegible (hover hmode) h)
        · simp only [modes_differ, if_false] at h
          exact Or.inr ⟨u, hlegible, hdue, hmode, h⟩
    · left
      obtain ⟨hd, -⟩ := h.ret_inv
      exact Except.ok.inj hd ▸ rfl

/-- Nothing that happens during a probe makes it raise. -/
theorem probe_watched {s t : HashServer} {mode : String} {log : List (HashCmd × HashServer)}
    {r : Except Error CircuitBreakerDecision} (hlegible : Legible s.hget)
    (h : Watched HashServer.exec Lapse (probe mode) s log r t) : ∃ d, r = .ok d := by
  obtain ⟨u, rest, hlegible, -, h⟩ := h.call_inv (fun _ _ hst h => Legible.lapse hst h) hlegible
  have hfield : "half_open_requests" ≠ "mode" := by decide
  obtain ⟨n, hexec, -⟩ := hlegible.hincrby hfield 1
  simp only [HashServer.exec, hexec] at h
  exact ⟨_, h.ret_inv.2.1⟩

/-- The part of `allow_request` written for OPEN, once the end of the cooldown has been read. -/
theorem cooled_watched {s t : HashServer} {openUntilMs : Int} {log : List (HashCmd × HashServer)}
    {r : Except Error CircuitBreakerDecision} (hlegible : Legible s.hget)
    (h : Watched HashServer.exec Lapse (do
      let nowMs ← hashTime
      if nowMs < openUntilMs then
        pure { allowed := false, mode := modeOpen }
      else do
        b.hsetState
          [("mode", modeHalfOpen),
           ("half_open_successes", pyStr (0 : Int)),
           ("half_open_requests", pyStr (0 : Int))]
        probe modeHalfOpen) s log r t) : ∃ d, r = .ok d := by
  have hlapse : ∀ s t : HashServer, Lapse s t → Legible s.hget → Legible t.hget :=
    fun _ _ hst h => h.lapse hst
  obtain ⟨u, rest, hlegible, -, h⟩ := h.call_inv hlapse hlegible
  change Watched _ _ ((.ret u.now : M Int) >>= _) u _ _ t at h
  rw [Prog.ret_bind] at h
  split_ifs at h
  · exact ⟨_, h.ret_inv.2.1⟩
  · obtain ⟨v, rest, hlegible, -, h⟩ := h.call_inv hlapse hlegible
    obtain ⟨w, rest, hlegible, -, h⟩ := h.call_inv hlapse (hlegible.hset complete_halfOpen)
    have hwrites : WritesLegibly (.expire b.stateTtlSeconds) := trivial
    exact probe_watched (hlegible.exec hwrites) h

/-- The key is lost between the two reads of `allow_request`, of which the first has met OPEN. -/
def KeyLost (log : List (HashCmd × HashServer)) : Prop :=
  ∃ u v rest, log = (.hget "mode", u) :: (.hget "open_until_ms", v) :: rest ∧
    u.hget "mode" = some modeOpen ∧ v.key = none

/-- The `try` block reads what the invariant says is there. It raises where the key is lost between
its two reads, and nowhere else. -/
theorem allowRequestTry_watched {s t : HashServer} {log : List (HashCmd × HashServer)}
    {r : Except Error CircuitBreakerDecision} (hlegible : Legible s.hget)
    (hwatched : Watched HashServer.exec Lapse b.allowRequestTry s log r t) :
    (KeyLost log → r = .error (.valueError "None")) ∧ (¬ KeyLost log → ∃ d, r = .ok d) := by
  obtain ⟨u, rest, hlegible, rfl, h⟩ :=
    hwatched.call_inv (fun _ _ hst h => Legible.lapse hst h) hlegible
  clear hwatched
  change Watched _ _ ((.ret (u.hget "mode") : M (Option String)) >>= _) u _ _ t at h
  rw [Prog.ret_bind] at h
  have hcalm : u.hget "mode" ≠ some modeOpen → ¬ KeyLost ((.hget "mode", u) :: rest) := by
    rintro hne ⟨u', v, rest', heq, hmode, -⟩
    obtain ⟨hu, -⟩ := List.cons.inj heq
    obtain rfl := (Prod.mk.inj hu).2
    exact hne hmode
  cases hmode : u.hget "mode" with
  | none =>
    rw [hmode] at h
    exact ⟨fun hlost => absurd hlost (hcalm (by simp [hmode])), fun _ => ⟨_, h.ret_inv.2.1⟩⟩
  | some mode =>
    rw [hmode] at h
    rcases hlegible.mode mode hmode with rfl | rfl | rfl
    · exact ⟨fun hlost => absurd hlost (hcalm (by simp [hmode])), fun _ => ⟨_, h.ret_inv.2.1⟩⟩
    · simp only [modes_differ, if_false, if_true] at h
      -- Until the second read the hash is either as it was, or gone.
      obtain ⟨v, rest', ⟨hlegible, hkept⟩, rfl, hread⟩ := h.call_inv
        (J := fun v => Legible v.hget ∧ (v.key = none ∨ v.hget "mode" = some modeOpen))
        (fun _ _ hst h => ⟨h.1.lapse hst, by
          cases hst with
          | tick => exact h.2
          | drop => exact .inl rfl⟩) ⟨hlegible, .inr hmode⟩
      clear h
      change Watched _ _ ((.ret (v.hget "open_until_ms") : M (Option String)) >>= _) v _ _ t
        at hread
      rw [Prog.ret_bind] at hread
      rcases hkept with hlost | hopen
      · have huntil : v.hget "open_until_ms" = none := by simp [HashServer.hget, hlost]
        rw [huntil, asInt_none, Prog.raise_bind] at hread
        exact ⟨fun _ => hread.raise_inv.2, fun hnot => absurd ⟨u, v, _, rfl, hmode, hlost⟩ hnot⟩
      · obtain ⟨text, huntil⟩ := Option.ne_none_iff_exists'.mp (hlegible.openUntil hopen)
        obtain ⟨n, rfl⟩ := hlegible.numeric "open_until_ms" text (by decide) huntil
        rw [huntil, asInt_pyStr, Prog.ret_bind] at hread
        refine ⟨?_, fun _ => cooled_watched hlegible hread⟩
        rintro ⟨u', v', rest'', heq, -, hnone⟩
        obtain ⟨-, hrest⟩ := List.cons.inj heq
        obtain ⟨hv, -⟩ := List.cons.inj hrest
        obtain rfl := (Prod.mk.inj hv).2
        simp [HashServer.hget, hnone] at hopen
    · simp only [modes_differ, if_false] at h
      have hnot := hcalm (by simp [hmode])
      exact ⟨fun hlost => absurd hlost hnot, fun _ => probe_watched hlegible h⟩

end RedisCircuitBreaker

/-- What a call of `allow_request` decides, taken out of its step. -/
theorem SlowStep.allowRequest {s t : HashServer} {request : ℕ} {time : Int}
    {d : CircuitBreakerDecision}
    (h : SlowStep b s (.call request .allowRequest time (some d)) t) :
    Interfered HashServer.exec Lapse b.allowRequest { s with now := time } (.ok d) t := by
  cases h with
  | call _ h =>
    rcases h.bind_inv with ⟨d', u, hrun, hret⟩ | ⟨e, he, -⟩
    · -- What interferes after the decision is part of the call too.
      obtain ⟨hd, htail⟩ := hret.ret_inv
      obtain rfl := Option.some.inj (Except.ok.inj hd)
      exact hrun.after htail
    · simp at he

/-- The run of the `try` block in a call, and what the call makes of its end. -/
theorem SlowStep.watched {s t : HashServer} {request : ℕ} {time : Int}
    {d : CircuitBreakerDecision} (hon : b.isEnabled = true)
    (h : SlowStep b s (.call request .allowRequest time (some d)) t) :
    ∃ log r u, Watched HashServer.exec Lapse b.allowRequestTry { s with now := time } log r u ∧
      d = r.toOption.getD ⟨true, modeClosed⟩ := by
  have hrun := h.allowRequest
  rw [allowRequest_of_isEnabled hon] at hrun
  rcases hrun.handle_inv with ⟨d', hd, hrun⟩ | ⟨e, u, hraised, hrun⟩
  · obtain rfl := Except.ok.inj hd
    obtain ⟨log, hwatched⟩ := Watched.of_interfered hrun
    exact ⟨log, _, t, hwatched, rfl⟩
  · obtain ⟨log, hwatched⟩ := Watched.of_interfered hraised
    obtain ⟨hd, -⟩ := hrun.ret_inv
    exact ⟨log, _, u, hwatched, Except.ok.inj hd⟩

/-- While no failure is recorded and no request asks, the next request stays due. -/
theorem SlowStep.due {s t : HashServer} {e : Event} (hstep : SlowStep b s e t) (hdue : Due s)
    (hquiet : e.isSuccessOrExpiry = true) : Due t := by
  cases hstep with
  | @call _ _ op time _ _ hrun =>
    cases op with
    | recordSuccess =>
      have hclears : (Op.recordSuccess.prog b).Only Clears :=
        recordSuccess_clears.bind fun _ => trivial
      have hstart : Due { s with now := time } := ⟨hdue.mode, hdue.requests⟩
      have hexec : ∀ c s, Clears c → Due s → Due (HashServer.exec c s).2 :=
        fun _ _ hc h => h.exec hc
      exact hrun.invariant hexec (fun _ _ hst h => h.lapse hst) hclears hstart
    | allowRequest | recordFailure | recordTimeout => simp [Event.isSuccessOrExpiry] at hquiet
  | expire => exact due_of_key_none rfl

theorem storedMode_eq_open {s : HashServer} :
    storedMode s = modeOpen ↔ s.hget "mode" = some modeOpen := by
  unfold storedMode modeOrClosed
  cases s.hget "mode" with
  | none => simp
  | some text =>
    dsimp only
    split_ifs with hempty
    · simp [hempty, modeOpen, modeClosed]
    · simp

/-- What is promised where a run of the breaker has come. -/
structure LocksNobodyOut (b : RedisCircuitBreaker) (s : HashServer) : Prop where
  /-- while OPEN the end of the cooldown is stored -/
  openUntil : storedMode s = modeOpen → ∃ u, s.hget "open_until_ms" = some (pyStr u)
  /-- the `try` block raises exactly where it loses the key between its two reads -/
  raises : ∀ time log r t, s.now ≤ time →
    Watched HashServer.exec Lapse b.allowRequestTry { s with now := time } log r t →
      (KeyLost log → r = .error (.valueError "None")) ∧ (¬ KeyLost log → ∃ d, r = .ok d)
  /-- every call decides what its `try` block returns, or else admits the request -/
  decides : ∀ request time d t, b.isEnabled = true →
    SlowStep b s (.call request .allowRequest time (some d)) t →
      ∃ log r u, Watched HashServer.exec Lapse b.allowRequestTry { s with now := time } log r u ∧
        (KeyLost log → d = ⟨true, modeClosed⟩) ∧ (¬ KeyLost log → r = .ok d)
  /-- one of two requests in a row is admitted, unless a failure is recorded between them -/
  admits : ∀ request request' time time' d d' s₁ s₂ s₃ tr,
    SlowStep b s (.call request .allowRequest time (some d)) s₁ →
    (storedMode s = modeOpen → ∀ u, s.hget "open_until_ms" = some (pyStr u) → u ≤ time) →
    Run (SlowStep b) s₁ tr s₂ → (∀ x ∈ tr, x.label.isSuccessOrExpiry = true) →
    SlowStep b s₂ (.call request' .allowRequest time' (some d')) s₃ →
    d.allowed = true ∨ d'.allowed = true

theorem breaker_never_locks_out {b : RedisCircuitBreaker} {s : HashServer}
    (hreach : SlowReachable b s) : LocksNobodyOut b s := by
  have hlegible : Legible s.hget := hreach.legible
  constructor
  case openUntil =>
    intro hopen
    obtain ⟨text, htext⟩ :=
      Option.ne_none_iff_exists'.mp (hlegible.openUntil (storedMode_eq_open.mp hopen))
    obtain ⟨u, rfl⟩ := hlegible.numeric "open_until_ms" text (by decide) htext
    exact ⟨u, htext⟩
  case raises =>
    intro time log r t _ h
    exact allowRequestTry_watched (s := { s with now := time }) hlegible h
  case decides =>
    intro request time d t hon hstep
    obtain ⟨log, r, u, hwatched, hd⟩ := hstep.watched hon
    obtain ⟨hlost, hkept⟩ :=
      allowRequestTry_watched (s := { s with now := time }) hlegible hwatched
    refine ⟨log, r, u, hwatched, fun h => ?_, fun h => ?_⟩
    · rw [hlost h] at hd
      exact hd
    · obtain ⟨d', rfl⟩ := hkept h
      exact congrArg Except.ok hd.symm
  case admits =>
    intro request request' time time' d d' s₁ s₂ s₃ tr hfirst hover hrun hquiet hsecond
    have hlegible₁ := hfirst.legible hlegible
    have hover' : Over { s with now := time } := fun hopen => hover (storedMode_eq_open.mpr hopen)
    rcases allowRequest_over (s := { s with now := time }) hlegible hover' hfirst.allowRequest with
      hd | ⟨u, hu, -, hmode, hprobe⟩
    · exact Or.inl hd
    have hcalm : u.hget "mode" ≠ some modeOpen := by simp [hmode]
    rcases due_of_probe hu hcalm hprobe with hd | hdue
    · exact Or.inl hd
    · right
      have hrun' : Due s₂ ∧ Legible s₂.hget := by
        refine hrun.invariant_of_labels (I := fun s => Due s ∧ Legible s.hget)
          (P := fun e => e.isSuccessOrExpiry = true) ?_ hquiet ⟨hdue, hlegible₁⟩
        intro s e t he hs hstep
        exact ⟨hstep.due hs.1 he, hstep.legible hs.2⟩
      obtain ⟨hdue₂, hlegible₂⟩ := hrun'
      have hdue' : Due { s₂ with now := time' } := ⟨hdue₂.mode, hdue₂.requests⟩
      have hover₂ : Over { s₂ with now := time' } := fun hopen => absurd hopen hdue₂.mode
      rcases allowRequest_over (s := { s₂ with now := time' }) hlegible₂ hover₂
        hsecond.allowRequest with hd | ⟨v, hv, hkeep, -, hv'⟩
      · exact hd
      · exact probe_of_due hv (hkeep hdue') hv'

/-- The default breaker opens at 3000 for a minute. The second request of its HALF_OPEN state is
rejected, and the third one, asked after the key has expired, is admitted. -/
theorem breaker_never_locks_out_default : ∃ s₁ s₂ s₃ s₄ : HashServer,
    SlowReachable defaultBreaker s₁ ∧ storedMode s₁ = modeHalfOpen ∧
    SlowStep defaultBreaker s₁ (.call 5 .allowRequest 63001 (some ⟨false, modeHalfOpen⟩)) s₂ ∧
    SlowStep defaultBreaker s₂ (.expire 183000) s₃ ∧
    SlowStep defaultBreaker s₃ (.call 6 .allowRequest 183001 (some ⟨true, modeClosed⟩)) s₄ ∧
    ((false : Bool) = true ∨ (true : Bool) = true) := by
  have hon : defaultBreaker.isEnabled = true := rfl
  obtain ⟨s, t, ⟨start, hstart, hreach⟩, hopening, hnow, hrep⟩ := exists_opening
  obtain ⟨s₁, h₁, hnow₁, hrep₁⟩ := exists_step hon hrep 4 .allowRequest 63000 (by omega)
  obtain ⟨s₂, h₂, hnow₂, hrep₂⟩ := exists_step hon hrep₁ 5 .allowRequest 63001 (by omega)
  have hexpire : Step defaultBreaker s₂ (.expire 183000) ⟨183000, none⟩ := by
    obtain ⟨hash, hkey, hdeadline, -⟩ := hrep₂
    exact .expire (by omega) hkey hdeadline (by decide)
  obtain ⟨s₄, h₄, -, -⟩ := exists_step hon (show Represents ⟨183000, none⟩ none from rfl) 6
    .allowRequest 183001 (by decide)
  have hreach₁ : SlowReachable defaultBreaker s₁ :=
    Reachable.slow ⟨start, hstart, (hreach.run (.single hopening)).run (.single h₁)⟩
  have hmode : storedMode s₁ = modeHalfOpen := storedMode_eq hrep₁
  refine ⟨s₁, s₂, _, s₄, hreach₁, hmode, h₂.slow, hexpire.slow, h₄.slow, ?_⟩
  refine (breaker_never_locks_out hreach₁).admits 5 6 63001 183001 _ _ s₂ _ s₄ _ h₂.slow ?_
    (.single hexpire.slow) ?_ h₄.slow
  · simp [hmode]
  · simp [Event.isSuccessOrExpiry]

/-- Where `allow_request` loses the key between its two reads, `int("None")` raises. -/
theorem watched_keyLost {b : RedisCircuitBreaker} {s : HashServer} {h : Hash} {d : Int}
    (hkey : s.key = some h) (hmode : h.fields "mode" = some modeOpen)
    (hdeadline : h.deadline = some d) (hnow : s.now ≤ d) :
    Watched HashServer.exec Lapse b.allowRequestTry s
      [(.hget "mode", s), (.hget "open_until_ms", ⟨d, none⟩)] (.error (.valueError "None"))
      ⟨d, none⟩ := by
  refine .call (.env (.tick hnow) (.env (.drop hkey hdeadline (Int.le_refl d)) ?_))
  have hreply : s.hget "mode" = some modeOpen := by simp [HashServer.hget, hkey, hmode]
  change Watched _ _ ((.ret (s.hget "mode") : M (Option String)) >>= _) _ _ _ _
  rw [Prog.ret_bind, hreply]
  simp only [modes_differ, if_false, if_true]
  refine .call ?_
  change Watched _ _ ((.ret none : M (Option String)) >>= _) _ _ _ _
  rw [Prog.ret_bind, asInt_none, Prog.raise_bind]
  exact .raise

/-- The default breaker is OPEN from 3000 on and its key expires at 123000. A request that has read
its mode one millisecond before that meets the missing field, and is admitted. -/
theorem key_lost_between_reads : ∃ s log t, SlowReachable defaultBreaker s ∧
    storedMode s = modeOpen ∧ s.now ≤ 122999 ∧
    Watched HashServer.exec Lapse defaultBreaker.allowRequestTry { s with now := 122999 } log
      (.error (.valueError "None")) t ∧
    SlowStep defaultBreaker s (.call 4 .allowRequest 122999 (some ⟨true, modeClosed⟩)) t := by
  obtain ⟨s, t, ⟨start, hstart, hreach⟩, hopening, hnow, hrep⟩ := exists_opening
  have hreach' : SlowReachable defaultBreaker t :=
    Reachable.slow ⟨start, hstart, hreach.run (.single hopening)⟩
  have hmode : storedMode t = modeOpen := storedMode_eq hrep
  obtain ⟨hash, hkey, hdeadline, hopen, -⟩ := hrep
  have hwatched := watched_keyLost (b := defaultBreaker) (s := { t with now := 122999 }) hkey hopen
    hdeadline (show (122999 : Int) ≤ 123000 by decide)
  have hcall : Interfered HashServer.exec Lapse defaultBreaker.allowRequest
      { t with now := 122999 } (.ok ⟨true, modeClosed⟩) ⟨123000, none⟩ := by
    rw [allowRequest_of_isEnabled rfl]
    exact hwatched.interfered.handle_error .ret
  exact ⟨t, _, _, hreach', hmode, by omega, hwatched, .call (by omega) (hcall.bind_ok .ret)⟩

end BaseWebService.CircuitBreaker
