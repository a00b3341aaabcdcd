import BaseWebService.CircuitBreaker.Opening

/-!
# The cooldown

Once the breaker opens, `allow_request` rejects until the cooldown ends, in every run that
keeps clear of two steps: a success recorded while the breaker is OPEN, and a failure recorded
while it is OPEN but later than the timeout window allows. Neither method has a case for OPEN;
both write CLOSED.
-/

namespace BaseWebService.CircuitBreaker

open Library Redis RedisCircuitBreaker

/-- The steps that end the cooldown early, as a condition on the state they start from. -/
def Disturbs (b : RedisCircuitBreaker) (s : HashServer) (e : Event) : Prop :=
  storedMode s = modeOpen ∧ match e with
    | .call _ .recordSuccess _ _ => True
    | .call _ .recordFailure time _ | .call _ .recordTimeout time _ =>
      1 < b.config.timeoutThreshold ∧ ∃ l, s.hget "last_timeout_ms" = some (pyStr l) ∧
        time - l > b.config.timeoutWindowSeconds * 1000
    | .call _ .allowRequest _ _ | .expire _ => False

/-- Every `allow_request` made from `s` before `endMs` is rejected. -/
def Rejects (b : RedisCircuitBreaker) (endMs : Int) (s : HashServer) : Prop :=
  ∀ request time decision t, time < endMs →
    Step b s (.call request .allowRequest time (some decision)) t → decision.allowed = false

/-- The memory during a cooldown that lasts until `endMs`. -/
def Cooling (b : RedisCircuitBreaker) (endMs : Int) (s : HashServer) : Prop :=
  endMs ≤ s.now + b.config.openSeconds * 1000 ∧
    ∃ f l u d, Represents s (some (.opened f l u, d)) ∧ b.config.timeoutThreshold ≤ f ∧
      endMs ≤ u ∧ endMs ≤ d

variable {b : RedisCircuitBreaker}

theorem deadline_ge_cooldown (hpos : 0 ≤ b.config.openSeconds) (now : Int) :
    now + b.config.openSeconds * 1000 ≤ b.deadline now := by
  unfold deadline stateTtlSeconds
  omega

theorem Cooling.rejects (hon : b.isEnabled = true) {endMs : Int} {s : HashServer}
    (h : Cooling b endMs s) : Rejects b endMs s := by
  intro request time decision t htime hstep
  obtain ⟨-, f, l, u, d, hrep, -, hu, -⟩ := h
  obtain ⟨-, -, hdecision, -⟩ := step_call hon hrep hstep
  have hcool : time < u := by omega
  simp only [opMemory, allowMemory, if_pos hcool] at hdecision
  exact congrArg CircuitBreakerDecision.allowed (Option.some.inj hdecision)

theorem hget_last_of_opened {s : HashServer} {f l u d : Int}
    (h : Represents s (some (.opened f l u, d))) :
    s.hget "last_timeout_ms" = some (pyStr l) := by
  obtain ⟨hash, hkey, -, -, -, hlast, -⟩ := h
  simp [HashServer.hget, hkey, hlast]

/-- A failure in OPEN that does not disturb the cooldown opens the breaker again. -/
theorem failurePhase_reopens {f l : Int} (now : Int) (hf : b.config.timeoutThreshold ≤ f)
    (hkeep : ¬ (1 < b.config.timeoutThreshold ∧
      now - l > b.config.timeoutWindowSeconds * 1000)) :
    ∃ f', b.failurePhase f l now = .opened f' now (now + b.config.openSeconds * 1000) ∧
      b.config.timeoutThreshold ≤ f' := by
  have hopen : b.countFailure f l now ≥ b.config.timeoutThreshold := by
    simp only [countFailure]
    split_ifs <;> omega
  exact ⟨_, by rw [failurePhase, if_pos hopen, openPhase], failuresOrThreshold_ge hopen⟩

/-- One undisturbed step of the cooldown. -/
theorem Cooling.step (hon : b.isEnabled = true) (hpos : 0 ≤ b.config.openSeconds) {endMs : Int}
    {s t : HashServer} {e : Event} (h : Cooling b endMs s) (hstep : Step b s e t)
    (htime : e.time < endMs) (hcalm : ¬ Disturbs b s e) : Cooling b endMs t := by
  obtain ⟨hnow, f, l, u, d, hrep, hf, hu, hd⟩ := h
  have hclock := hstep.now
  refine ⟨by omega, ?_⟩
  have hmode : storedMode s = modeOpen := storedMode_eq hrep
  have hlast := hget_last_of_opened hrep
  rcases e with ⟨request, op, time, decision⟩ | ⟨time⟩
  · obtain ⟨-, -, -, ht⟩ := step_call hon hrep hstep
    simp only [Event.time] at htime hclock
    have hreopen : ¬ (1 < b.config.timeoutThreshold ∧
        time - l > b.config.timeoutWindowSeconds * 1000) →
        ∃ f' l' u' d', (some (b.failurePhase f l time, b.deadline time) : Memory) =
          some (.opened f' l' u', d') ∧ b.config.timeoutThreshold ≤ f' ∧ endMs ≤ u' ∧
          endMs ≤ d' := by
      intro hkeep
      obtain ⟨f', hphase, hf'⟩ := failurePhase_reopens _ hf hkeep
      have hlong := deadline_ge_cooldown hpos time
      exact ⟨f', time, _, _, by rw [hphase], hf', by omega, by omega⟩
    cases op with
    | allowRequest =>
      have hcool : time < u := by omega
      simp only [opMemory, allowMemory, if_pos hcool] at ht
      exact ⟨f, l, u, d, ht, hf, hu, hd⟩
    | recordFailure | recordTimeout =>
      obtain ⟨f', l', u', d', heq, hf', hu', hd'⟩ := hreopen fun hlate =>
        hcalm ⟨hmode, hlate.1, l, hlast, hlate.2⟩
      exact ⟨f', l', u', d', heq ▸ ht, hf', hu', hd'⟩
    | recordSuccess => exact absurd ⟨hmode, trivial⟩ hcalm
  · obtain ⟨-, -, -, _, _, hm, hdue⟩ := step_expire hrep hstep
    obtain ⟨rfl, rfl⟩ := Prod.mk.inj (Option.some.inj hm)
    simp only [Event.time] at htime
    omega

/-- An undisturbed run stays in the cooldown. -/
theorem Cooling.run (hon : b.isEnabled = true) (hpos : 0 ≤ b.config.openSeconds) {endMs : Int}
    {s t : HashServer} {tr : List (Transition HashServer Event)} (h : Cooling b endMs s)
    (hrun : Run (Step b) s tr t) (hcalm : ∀ x ∈ tr, ¬ Disturbs b x.before x.label)
    (htime : t.now < endMs) : Cooling b endMs t := by
  induction hrun with
  | nil => exact h
  | @snoc tr t u e _ hst ih =>
    have hclock := hst.now
    exact (ih (fun x hx => hcalm x (List.mem_append_left _ hx)) (by omega)).step hon hpos hst
      (by omega) (hcalm ⟨t, e, u⟩ (by simp))

/-- A disturbing step leaves the breaker closed, with the cooldown still running. -/
theorem Cooling.disturbed (hon : b.isEnabled = true) {endMs : Int} {s t : HashServer} {e : Event}
    (h : Cooling b endMs s) (hstep : Step b s e t) (hdisturbs : Disturbs b s e) :
    ∃ f l d, Represents t (some (.closed f l, d)) := by
  obtain ⟨-, f, l, u, d, hrep, hf, -, -⟩ := h
  obtain ⟨-, hdisturbs⟩ := hdisturbs
  have hlast := hget_last_of_opened hrep
  have hclosed : ∀ time, 1 < b.config.timeoutThreshold →
      time - l > b.config.timeoutWindowSeconds * 1000 →
      b.failurePhase f l time = .closed 1 time := by
    intro time hthreshold hlate
    have hone : b.countFailure f l time = 1 := by rw [countFailure, if_pos hlate]
    rw [failurePhase, hone, if_neg (by omega)]
  rcases e with ⟨request, op, time, decision⟩ | ⟨time⟩
  · obtain ⟨-, -, -, ht⟩ := step_call hon hrep hstep
    cases op with
    | allowRequest => exact hdisturbs.elim
    | recordFailure | recordTimeout =>
      obtain ⟨hthreshold, l', hl', hlate⟩ := hdisturbs
      obtain rfl : l' = l := pyStr_injective (Option.some.inj (hl'.symm.trans hlast))
      simp only [opMemory, failureMemory, hclosed time hthreshold hlate] at ht
      exact ⟨_, _, _, ht⟩
    | recordSuccess => exact ⟨_, _, _, ht⟩
  · exact hdisturbs.elim

/-- An admission that breaks the cooldown is possible right after a disturbing step. -/
theorem not_rejects_of_closed (hon : b.isEnabled = true) {endMs : Int} {s : HashServer}
    {f l d : Int} (hrep : Represents s (some (.closed f l, d))) (htime : s.now < endMs) :
    ¬ Rejects b endMs s := by
  intro h
  obtain ⟨t, hstep, -, -⟩ := exists_step hon hrep 0 .allowRequest s.now (Int.le_refl _)
  exact absurd (h _ _ _ _ htime hstep) (by simp [allowMemory])

/-- The state a failure leaves when it opens the breaker is the start of a cooldown. -/
theorem OpenedAt.cooling (hon : b.isEnabled = true) (hpos : 0 ≤ b.config.openSeconds)
    {s t : HashServer} (hreach : Reachable b s) {request : ℕ} {op : Op} {time : Int}
    {decision : Option CircuitBreakerDecision}
    (hstep : Step b s (.call request op time decision) t) (hfail : op.isFailure = true)
    (hopened : OpenedAt b time t) : Cooling b (time + b.config.openSeconds * 1000) t := by
  obtain ⟨m, hrep, hm⟩ := reachable_phase hon hreach
  obtain ⟨-, hnow, -, ht⟩ := step_call hon hrep hstep
  have hcounted : b.Counted (b.opMemory time m op).2 := opMemory_counted op hm
  have hmode := (storedMode_eq ht).symm.trans hopened.1
  rw [opMemory_of_isFailure hfail] at ht hcounted hmode
  refine ⟨by omega, ?_⟩
  rcases hmem : b.failureMemory time m with _ | ⟨⟨f, l⟩ | ⟨f, l, u⟩ | ⟨n, r⟩, d⟩ <;>
    rw [hmem] at ht hcounted hmode
  · simp [Memory.mode] at hmode
  · simp [Memory.mode] at hmode
  · have hd : d = b.deadline time := by
      rcases m with _ | ⟨_ | _ | _, _⟩ <;>
        simp only [failureMemory, Option.some.injEq, Prod.mk.injEq, reduceCtorEq] at hmem <;>
        exact hmem.2.symm
    have hu : u = time + b.config.openSeconds * 1000 := by
      have huntil := hopened.2
      obtain ⟨hash, hkey, -, -, -, -, hstored⟩ := ht
      simp only [HashServer.hget, hkey, Option.bind_some, hstored] at huntil
      exact pyStr_injective (Option.some.inj huntil)
    exact ⟨f, l, u, d, ht, hcounted, hu.ge, hd ▸ deadline_ge_cooldown hpos time⟩
  · simp [Memory.mode] at hmode

/-- The cooldown holds in every undisturbed run, and every further step keeps it if and only
if that step does not disturb it. -/
theorem cooldown_iff_undisturbed (hpos : 0 < b.config.openSeconds) {s s₁ s₂ : HashServer}
    (hreach : Reachable b s) {request : ℕ} {op : Op} {time : Int}
    {decision : Option CircuitBreakerDecision}
    (hopening : Step b s (.call request op time decision) s₁) (hfail : op.isFailure = true)
    (hopened : OpenedAt b time s₁) {tr : List (Transition HashServer Event)}
    (hrun : Run (Step b) s₁ tr s₂) (hcalm : ∀ x ∈ tr, ¬ Disturbs b x.before x.label) :
    Rejects b (time + b.config.openSeconds * 1000) s₂ ∧
      ∀ e s₃, Step b s₂ e s₃ → e.time < time + b.config.openSeconds * 1000 →
        (Rejects b (time + b.config.openSeconds * 1000) s₃ ↔ ¬ Disturbs b s₂ e) := by
  cases hon : b.isEnabled with
  | false =>
    -- A breaker that is switched off is never found open.
    have hreach₁ : Reachable b s₁ :=
      let ⟨start, hstart, hreaches⟩ := hreach
      ⟨start, hstart, hreaches.run (.single hopening)⟩
    have hkey := reachable_disabled hon hreach₁
    have hmode : storedMode s₁ = modeClosed := storedMode_eq (m := none) hkey
    simp [hopened.1] at hmode
  | true =>
    have hstart := hopened.cooling hon (by omega) hreach hopening hfail
    have hcooling : s₂.now < time + b.config.openSeconds * 1000 →
        Cooling b (time + b.config.openSeconds * 1000) s₂ :=
      hstart.run hon (by omega) hrun hcalm
    refine ⟨?_, fun e s₃ hstep htime => ⟨fun hrejects hdisturbs => ?_, fun hcalm' => ?_⟩⟩
    · intro request' time' decision' t htime hstep
      have hclock := hstep.now.1
      exact (hcooling (lt_of_le_of_lt hclock htime)).rejects hon _ _ _ _ htime hstep
    · have hclock := hstep.now
      obtain ⟨f, l, d, hclosed⟩ := (hcooling (by omega)).disturbed hon hstep hdisturbs
      exact not_rejects_of_closed hon hclosed (by omega) hrejects
    · have hclock := hstep.now
      exact ((hcooling (by omega)).step hon (by omega) hstep htime hcalm').rejects hon

/-- With the default settings one success and three failures open the breaker at 3000. -/
theorem exists_opening : ∃ s t, Reachable defaultBreaker s ∧
    Step defaultBreaker s (.call 3 .recordFailure 3000 none) t ∧ t.now = 3000 ∧
    Represents t (some (.opened 3 3000 63000, 123000)) := by
  have hon : defaultBreaker.isEnabled = true := rfl
  have hfresh : Represents ⟨0, none⟩ none := rfl
  obtain ⟨s₁, h₁, hnow₁, hrep₁⟩ := exists_step hon hfresh 0 .recordSuccess 500 (by decide)
  obtain ⟨s₂, h₂, hnow₂, hrep₂⟩ := exists_step hon hrep₁ 1 .recordFailure 1000 (by omega)
  obtain ⟨s₃, h₃, hnow₃, hrep₃⟩ := exists_step hon hrep₂ 2 .recordTimeout 2000 (by omega)
  obtain ⟨s₄, h₄, hnow₄, hrep₄⟩ := exists_step hon hrep₃ 3 .recordFailure 3000 (by omega)
  exact ⟨s₃, s₄, ⟨_, rfl, _, ((Run.single h₁).snoc h₂).snoc h₃⟩, h₄, hnow₄, hrep₄⟩

/-- A rejected request, one second into the cooldown of that opening. -/
theorem cooldown_iff_undisturbed_default : ∃ s t, Reachable defaultBreaker s ∧
    Step defaultBreaker s (.call 3 .recordFailure 3000 none) t ∧
    Rejects defaultBreaker 63000 t := by
  obtain ⟨s, t, hreach, hstep, -, hrep⟩ := exists_opening
  exact ⟨s, t, hreach, hstep, (cooldown_iff_undisturbed (by decide) hreach hstep rfl
    (openedAt_of_represents hrep) .nil (by simp)).1⟩

/-- The success of a request admitted before the opening closes the breaker, and the next
request is admitted 58 seconds before the cooldown ends. -/
theorem late_success_breaks_cooldown : ∃ s t u v, Reachable defaultBreaker s ∧
    Step defaultBreaker s (.call 3 .recordFailure 3000 none) t ∧ OpenedAt defaultBreaker 3000 t ∧
    Step defaultBreaker t (.call 4 .recordSuccess 4000 none) u ∧
    Step defaultBreaker u (.call 5 .allowRequest 5000 (some ⟨true, modeClosed⟩)) v ∧
    (5000 : Int) < 3000 + defaultBreaker.config.openSeconds * 1000 := by
  have hon : defaultBreaker.isEnabled = true := rfl
  obtain ⟨s, t, hreach, hstep, hnow, hrep⟩ := exists_opening
  obtain ⟨u, hu, hnow', hrep'⟩ := exists_step hon hrep 4 .recordSuccess 4000 (by omega)
  obtain ⟨v, hv, -, -⟩ := exists_step hon hrep' 5 .allowRequest 5000 (by omega)
  exact ⟨s, t, u, v, hreach, hstep, openedAt_of_represents hrep, hu, hv, by decide⟩

end BaseWebService.CircuitBreaker
