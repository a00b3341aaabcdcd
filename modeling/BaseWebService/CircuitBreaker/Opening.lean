import BaseWebService.CircuitBreaker.Run

/-!
# When repeated failures open the breaker

A block is a sequence of failures, each within the timeout window of the one before, with
nothing but `allow_request` calls and expiries between them. A block as long as the
threshold opens the breaker exactly when the key exists at its first failure: on a missing
key the failure raises inside `record_failure` and nothing is ever counted.
-/

namespace BaseWebService.CircuitBreaker

open Library Redis RedisCircuitBreaker

/-- `allow_request`, or the loss of the key. -/
def Event.isQuiet : Event → Bool
  | .call _ .allowRequest _ _ => true
  | .call _ _ _ _ => false
  | .expire _ => true

/-- The events a block may hold. -/
def Event.InBlock (e : Event) : Prop :=
  e.isQuiet = true ∨ ∃ request op time decision,
    e = .call request op time decision ∧ op.isFailure = true

/-- `FailureBlock b tr n last`: `tr` starts and ends with a failure, holds `n` of them, the
last one at `last`, and no `record_success`. -/
inductive FailureBlock (b : RedisCircuitBreaker) :
    List (Transition HashServer Event) → ℕ → Int → Prop where
  | first {x : Transition HashServer Event} {request : ℕ} {op : Op} {time : Int}
      {decision : Option CircuitBreakerDecision} :
      x.label = .call request op time decision → op.isFailure = true → FailureBlock b [x] 1 time
  | next {tr quiet : List (Transition HashServer Event)} {x : Transition HashServer Event}
      {n : ℕ} {last : Int} {request : ℕ} {op : Op} {time : Int}
      {decision : Option CircuitBreakerDecision} :
      FailureBlock b tr n last → (∀ y ∈ quiet, y.label.isQuiet = true) →
      x.label = .call request op time decision → op.isFailure = true →
      time - last ≤ b.config.timeoutWindowSeconds * 1000 →
      FailureBlock b (tr ++ quiet ++ [x]) (n + 1) time

variable {b : RedisCircuitBreaker}

theorem opMemory_of_isFailure {op : Op} (h : op.isFailure = true) (now : Int) (m : Memory) :
    (b.opMemory now m op).2 = b.failureMemory now m := by
  cases op <;> first | rfl | simp [Op.isFailure] at h

theorem deadline_mono {now now' : Int} (h : now ≤ now') : b.deadline now ≤ b.deadline now' := by
  unfold deadline
  omega

/-- A key written at `now` outlives the timeout window. -/
theorem window_lt_deadline (hwindow : 0 < b.config.timeoutWindowSeconds) (now : Int) :
    now + b.config.timeoutWindowSeconds * 1000 < b.deadline now := by
  unfold deadline stateTtlSeconds
  omega

/-- What `n` counted failures, the last at `last`, have left in the key. -/
def Pending (b : RedisCircuitBreaker) (n : ℕ) (last : Int) : Phase → Prop
  | .closed f l => l = last ∧ n ≤ f ∧ f < b.config.timeoutThreshold
  | .opened f l u => l = last ∧ b.config.timeoutThreshold ≤ f ∧
      u = last + b.config.openSeconds * 1000
  | .halfOpen _ _ => False

def Phase.isHalfOpen : Phase → Prop
  | .halfOpen _ _ => True
  | _ => False

/-- One more failure, counted. -/
theorem failurePhase_pending {f l now : Int} {n : ℕ}
    (hcount : (n : Int) ≤ b.countFailure f l now) :
    Pending b n now (b.failurePhase f l now) := by
  unfold failurePhase openPhase
  split_ifs with hopen
  · exact ⟨rfl, failuresOrThreshold_ge hopen, rfl⟩
  · exact ⟨rfl, hcount, by omega⟩

theorem openPhase_pending (n : ℕ) (now : Int) : Pending b n now (b.openPhase now none) :=
  ⟨rfl, Int.le_refl _, rfl⟩

/-- A failure within the window of the last one adds one to the count, whatever
`allow_request` has done in between. -/
theorem failureMemory_pending {n : ℕ} {last now d : Int}
    {p p' : Phase} (hp : Pending b n last p) (hsame : p' = p ∨ p'.isHalfOpen)
    (hgap : now - last ≤ b.config.timeoutWindowSeconds * 1000) :
    ∃ q, b.failureMemory now (some (p', d)) = some (q, b.deadline now) ∧
      Pending b (n + 1) now q := by
  have hcount : ∀ f, b.countFailure f last now = f + 1 := by
    intro f
    simp only [countFailure]
    split_ifs <;> omega
  rcases hsame with rfl | hhalf
  · cases p' with
    | closed f l =>
      obtain ⟨rfl, hn, -⟩ := hp
      exact ⟨_, rfl, failurePhase_pending (by rw [hcount]; push_cast; omega)⟩
    | opened f l u =>
      obtain ⟨rfl, hf, -⟩ := hp
      -- The threshold has been reached before, so one more failure opens again.
      have hopen : b.countFailure f l now ≥ b.config.timeoutThreshold := by rw [hcount]; omega
      refine ⟨_, rfl, ?_⟩
      simp only [failurePhase, if_pos hopen]
      exact ⟨rfl, failuresOrThreshold_ge hopen, rfl⟩
    | halfOpen _ _ => exact hp.elim
  · cases p' with
    | halfOpen n r => exact ⟨_, rfl, openPhase_pending _ _⟩
    | closed | opened => exact hhalf.elim

/-- Between two failures the pending count survives, unless the key outlives its expiry. -/
def Waiting (b : RedisCircuitBreaker) (last : Int) (p : Phase) (s : HashServer) : Prop :=
  last ≤ s.now ∧ (b.deadline last ≤ s.now ∨ ∃ p' d, Represents s (some (p', d)) ∧
    b.deadline last ≤ d ∧ (p' = p ∨ p'.isHalfOpen))

theorem Waiting.quiet (hon : b.isEnabled = true) {last : Int} {p : Phase} {s t : HashServer}
    {e : Event} (h : Waiting b last p s) (hquiet : e.isQuiet = true) (hstep : Step b s e t) :
    Waiting b last p t := by
  have hnow : s.now ≤ t.now := hstep.now.2 ▸ hstep.now.1
  obtain ⟨hlast, hdue | ⟨p', d, hrep, hd, hsame⟩⟩ := h
  · exact ⟨by omega, Or.inl (by omega)⟩
  · refine ⟨by omega, ?_⟩
    rcases e with ⟨request, op, time, decision⟩ | ⟨time⟩
    · obtain ⟨-, htime, -, ht⟩ := step_call hon hrep hstep
      cases op with
      | allowRequest =>
        rcases p' with _ | ⟨f, l, u⟩ | _
        · exact Or.inr ⟨_, _, ht, hd, hsame⟩
        · simp only [opMemory, allowMemory] at ht
          split_ifs at ht
          · exact Or.inr ⟨_, _, ht, hd, hsame⟩
          · exact Or.inr ⟨_, _, ht, deadline_mono (by omega), Or.inr trivial⟩
        · exact Or.inr ⟨_, _, ht, hd, Or.inr trivial⟩
      | recordFailure | recordTimeout | recordSuccess => simp [Event.isQuiet] at hquiet
    · obtain ⟨-, htime, -, _, _, hm, hdue⟩ := step_expire hrep hstep
      obtain ⟨rfl, rfl⟩ := Prod.mk.inj (Option.some.inj hm)
      exact Or.inl (by omega)

theorem Waiting.run (hon : b.isEnabled = true) {last : Int} {p : Phase} {s t : HashServer}
    {tr : List (Transition HashServer Event)} (h : Waiting b last p s)
    (hquiet : ∀ y ∈ tr, y.label.isQuiet = true) (hrun : Run (Step b) s tr t) :
    Waiting b last p t :=
  hrun.invariant_of_labels (fun _ _ _ he hw hst => hw.quiet hon he hst) hquiet h

/-- The state right after the `n`-th failure of a block. -/
def AfterFailure (b : RedisCircuitBreaker) (n : ℕ) (last : Int) (s : HashServer) : Prop :=
  s.now = last ∧ ∃ p, Represents s (some (p, b.deadline last)) ∧ Pending b n last p

/-- In a block whose first failure finds the key, every failure is counted. -/
theorem FailureBlock.counted (hon : b.isEnabled = true)
    (hwindow : 0 < b.config.timeoutWindowSeconds) {tr : List (Transition HashServer Event)} {n : ℕ}
    {last : Int} (hblock : FailureBlock b tr n last) {s t : HashServer} {f l d : Int}
    (hrep : Represents s (some (.closed f l, d))) (hf : 0 ≤ f) (hrun : Run (Step b) s tr t) :
    AfterFailure b n last t := by
  induction hblock generalizing t with
  | @first x request op time decision hlabel hfail =>
    obtain ⟨hbefore, hstep, hrest⟩ := hrun.cons_inv
    obtain rfl := hrest.nil_eq
    rw [hlabel] at hstep
    obtain ⟨-, hnow, -, ht⟩ := step_call hon hrep hstep
    rw [opMemory_of_isFailure hfail] at ht
    have hpos := countFailure_pos (b := b) hf l time
    exact ⟨hnow, _, ht, failurePhase_pending (by push_cast; omega)⟩
  | @next tr quiet x n last request op time decision hblock hquiet hlabel hfail hgap ih =>
    obtain ⟨hbefore, hstep, rfl⟩ := hrun.snoc_inv
    obtain ⟨m, hm, hquietRun⟩ := hbefore.append_inv
    obtain ⟨hnow, p, hp, hpending⟩ := ih hm
    have hstart : Waiting b last p m :=
      ⟨by omega, Or.inr ⟨p, _, hp, Int.le_refl _, Or.inl rfl⟩⟩
    have hwait := hstart.run hon hquiet hquietRun
    rw [hlabel] at hstep
    obtain ⟨hlast, hdue | ⟨p', d', hrep', -, hsame⟩⟩ := hwait
    · -- The key cannot have expired: the next failure comes too soon.
      have hlate := window_lt_deadline hwindow last
      have htime := hstep.now.1
      simp only [Event.time] at htime
      omega
    · obtain ⟨-, hnow', -, ht⟩ := step_call hon hrep' hstep
      obtain ⟨q, hq, hpend⟩ := failureMemory_pending (d := d') hpending hsame hgap
      rw [opMemory_of_isFailure hfail, hq] at ht
      exact ⟨hnow', q, ht, hpend⟩

/-- Without a key neither a failure nor `allow_request` stores anything. -/
theorem step_missing (hon : b.isEnabled = true) {s t : HashServer} {e : Event}
    (he : e.InBlock) (hrep : Represents s none) (hstep : Step b s e t) : Represents t none := by
  rcases e with ⟨request, op, time, decision⟩ | ⟨time⟩
  · obtain ⟨-, -, -, ht⟩ := step_call hon hrep hstep
    cases op with
    | allowRequest | recordFailure | recordTimeout => exact ht
    | recordSuccess => simp [Event.InBlock, Event.isQuiet, Op.isFailure] at he
  · exact (step_expire hrep hstep).2.2.1

/-- A block only holds failures and quiet events. -/
theorem FailureBlock.mem {tr : List (Transition HashServer Event)} {n : ℕ} {last : Int}
    (hblock : FailureBlock b tr n last) {y : Transition HashServer Event} (hy : y ∈ tr) :
    y.label.InBlock := by
  induction hblock with
  | first hlabel hfail =>
    obtain rfl := List.mem_singleton.mp hy
    exact Or.inr ⟨_, _, _, _, hlabel, hfail⟩
  | next _ hquiet hlabel hfail _ ih =>
    rcases List.mem_append.mp hy with hy | hy
    · rcases List.mem_append.mp hy with hy | hy
      · exact ih hy
      · exact Or.inl (hquiet y hy)
    · obtain rfl := List.mem_singleton.mp hy
      exact Or.inr ⟨_, _, _, _, hlabel, hfail⟩

theorem FailureBlock.missing (hon : b.isEnabled = true)
    {tr : List (Transition HashServer Event)} {n : ℕ} {last : Int}
    (hblock : FailureBlock b tr n last) {s t : HashServer} (hrep : Represents s none)
    (hrun : Run (Step b) s tr t) : Represents t none :=
  hrun.invariant_of_labels (I := fun s => Represents s none)
    (fun _ _ _ he hm hst => step_missing hon he hm hst) (fun _ hy => hblock.mem hy) hrep

/-- The breaker is open, and stays so until `openSeconds` after `last`. -/
def OpenedAt (b : RedisCircuitBreaker) (last : Int) (s : HashServer) : Prop :=
  storedMode s = modeOpen ∧
    s.hget "open_until_ms" = some (pyStr (last + b.config.openSeconds * 1000))

theorem openedAt_of_represents {s : HashServer} {f l last d : Int}
    (h : Represents s (some (.opened f l (last + b.config.openSeconds * 1000), d))) :
    OpenedAt b last s := by
  refine ⟨storedMode_eq h, ?_⟩
  obtain ⟨hash, hkey, -, hstored⟩ := h
  simp [HashServer.hget, hkey, hstored.2.2.2]

/-- A block of `timeout_threshold` failures opens the breaker if and only if the key exists
when the block starts. -/
theorem opened_after_block_iff (hon : b.isEnabled = true)
    (hthreshold : 1 ≤ b.config.timeoutThreshold) (hwindow : 0 < b.config.timeoutWindowSeconds)
    {s t : HashServer} (hreach : Reachable b s) (hclosed : storedMode s = modeClosed)
    {tr : List (Transition HashServer Event)} {n : ℕ} {last : Int}
    (hblock : FailureBlock b tr n last) (hn : (n : Int) = b.config.timeoutThreshold)
    (hrun : Run (Step b) s tr t) : OpenedAt b last t ↔ s.key.isSome = true := by
  obtain ⟨m, hrep, hm⟩ := reachable_phase hon hreach
  have hmode := (storedMode_eq hrep).symm.trans hclosed
  rw [isSome_key hrep]
  rcases m with _ | ⟨⟨f, l⟩ | ⟨f, l, u⟩ | ⟨n, r⟩, d⟩
  · have ht := hblock.missing hon hrep hrun
    have hnot : storedMode t ≠ modeOpen := by simp [storedMode_eq ht, Memory.mode]
    simp [OpenedAt, hnot]
  · obtain ⟨-, p, hp, hpending⟩ := hblock.counted hon hwindow hrep (hm (by omega)) hrun
    refine iff_of_true ?_ rfl
    cases p with
    | closed f l => obtain ⟨-, hge, hlt⟩ := hpending; omega
    | opened f l u =>
      obtain ⟨rfl, -, rfl⟩ := hpending
      exact openedAt_of_represents hp
    | halfOpen n r => exact hpending.elim
  · simp [Memory.mode] at hmode
  · simp [Memory.mode] at hmode

/-- A breaker with the default settings and Redis at hand. -/
def defaultBreaker : RedisCircuitBreaker := ⟨.default, true⟩

/-- A failure with nothing since the last one. -/
theorem FailureBlock.snoc {tr : List (Transition HashServer Event)} {n : ℕ} {last : Int}
    (h : FailureBlock b tr n last) {x : Transition HashServer Event} {request : ℕ} {op : Op}
    {time : Int} {decision : Option CircuitBreakerDecision}
    (hlabel : x.label = .call request op time decision) (hfail : op.isFailure = true)
    (hgap : time - last ≤ b.config.timeoutWindowSeconds * 1000) :
    FailureBlock b (tr ++ [x]) (n + 1) time := by
  have hquiet : ∀ y ∈ ([] : List (Transition HashServer Event)), y.label.isQuiet = true := by simp
  simpa using h.next hquiet hlabel hfail hgap

/-- Three failures a second apart, from any state. -/
theorem exists_block {s : HashServer} {m : Memory} (hrep : Represents s m) (now : Int)
    (hnow : s.now ≤ now) :
    ∃ tr t, FailureBlock defaultBreaker tr 3 (now + 2000) ∧ Run (Step defaultBreaker) s tr t := by
  have hon : defaultBreaker.isEnabled = true := rfl
  obtain ⟨t₁, h₁, hnow₁, hrep₁⟩ := exists_step hon hrep 1 .recordFailure now hnow
  obtain ⟨t₂, h₂, hnow₂, hrep₂⟩ := exists_step hon hrep₁ 2 .recordTimeout (now + 1000) (by omega)
  obtain ⟨t₃, h₃, -, -⟩ := exists_step hon hrep₂ 3 .recordFailure (now + 2000) (by omega)
  have hgap : ∀ x y : Int, x - y = 1000 →
      x - y ≤ defaultBreaker.config.timeoutWindowSeconds * 1000 := fun x y hxy => by
    rw [hxy]; decide
  have hblock₁ : FailureBlock defaultBreaker [⟨s, .call 1 .recordFailure now none, t₁⟩] 1 now :=
    .first rfl rfl
  have hblock₂ := hblock₁.snoc (x := ⟨t₁, .call 2 .recordTimeout (now + 1000) none, t₂⟩) rfl rfl
    (hgap _ now (by omega))
  have hblock₃ := hblock₂.snoc (x := ⟨t₂, .call 3 .recordFailure (now + 2000) none, t₃⟩) rfl rfl
    (hgap _ (now + 1000) (by omega))
  exact ⟨_, t₃, hblock₃, ((Run.single h₁).snoc h₂).snoc h₃⟩

/-- After one recorded success three failures do open the breaker. -/
theorem opened_after_block_iff_default : ∃ s t tr, Reachable defaultBreaker s ∧
    FailureBlock defaultBreaker tr 3 3000 ∧ Run (Step defaultBreaker) s tr t ∧
    OpenedAt defaultBreaker 3000 t := by
  have hon : defaultBreaker.isEnabled = true := rfl
  have hfresh : Represents ⟨0, none⟩ none := rfl
  obtain ⟨s, hstep, hnow, hrep⟩ := exists_step hon hfresh 0 .recordSuccess 500 (by decide)
  have hreach : Reachable defaultBreaker s := ⟨_, rfl, _, .single hstep⟩
  obtain ⟨tr, t, hblock, hrun⟩ := exists_block hrep 1000 (by omega)
  refine ⟨s, t, tr, hreach, hblock, hrun, ?_⟩
  exact (opened_after_block_iff hon (by decide) (by decide) hreach (storedMode_eq hrep) hblock rfl
    hrun).mpr (isSome_key hrep)

/-- From an empty Redis the same three failures leave no key at all. -/
theorem block_from_empty_not_opened : ∃ t tr, FailureBlock defaultBreaker tr 3 3000 ∧
    Run (Step defaultBreaker) ⟨0, none⟩ tr t ∧ t.key = none ∧ ¬ OpenedAt defaultBreaker 3000 t := by
  have hfresh : Represents ⟨0, none⟩ none := rfl
  obtain ⟨tr, t, hblock, hrun⟩ := exists_block hfresh 1000 (by decide)
  have hmissing : Represents t none := hblock.missing rfl hfresh hrun
  refine ⟨t, tr, hblock, hrun, hmissing, fun hopen => ?_⟩
  have hmode := (storedMode_eq hmissing).symm.trans hopen.1
  simp [Memory.mode] at hmode

end BaseWebService.CircuitBreaker
