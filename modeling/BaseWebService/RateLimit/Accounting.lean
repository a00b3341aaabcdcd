import BaseWebService.RateLimit.Admissions

/-!
# Exactly-once accounting

What the invariant says about calls that have ended: the set never holds more than `limit`
members, an admitted call has added exactly one, and any other call none.
-/

namespace BaseWebService.RateLimit

open Library Redis RedisSlidingWindowRateLimiter

variable {config : RateLimitConfig} {key : String} {limit windowSeconds : Int}

theorem eq_done_of_ret {q : Point} {result : RateLimitResult}
    (h : hitFlow config key limit windowSeconds q = .ret result) : q = .done result := by
  cases q with
  | done result' => exact congrArg Point.done (Node.ret.inj h)
  | _ => cases h

theorem eq_failed_of_raise {q : Point} {e : Error}
    (h : hitFlow config key limit windowSeconds q = .raise e) : q = .failed e := by
  cases q with
  | failed e' => exact congrArg Point.failed (Node.raise.inj h)
  | _ => cases h

theorem Spent.attempts_le {i : ℕ} {h : HitHistory} {k : ℕ} (hspent : Spent config key i h k) :
    attempts i h ≤ maxAttempts config := by
  obtain ⟨n, hn, hmade⟩ := hspent
  exact hmade.1.le.trans hn

theorem Spent.added_eq {i : ℕ} {h : HitHistory} {k : ℕ} (hspent : Spent config key i h k) :
    added key i h = k := by
  obtain ⟨n, -, hmade⟩ := hspent
  exact hmade.2

/-- At no point has a call made more attempts than it may. -/
theorem Local.attempts_le {i : ℕ} {h : HitHistory} {s : ZServer} {q : Point}
    (hlocal : Local config key limit i h s q) : attempts i h ≤ maxAttempts config := by
  have hmade : ∀ {attempt left n : ℕ}, attempt + left + 1 = maxAttempts config →
      n ≤ attempt + 1 → Made key i h n 0 → attempts i h ≤ maxAttempts config := by
    intro attempt left n hbudget hn hmade
    rw [hmade.1]
    omega
  cases q with
  | clock => exact hmade hlocal.1 (Nat.le_succ _) hlocal.2
  | trim => exact hmade hlocal.1 (Nat.le_succ _) hlocal.2.1
  | watch | card | oldest | commit => exact hmade hlocal.1 (Nat.le_refl _) hlocal.2.1
  | exceeded => exact Spent.attempts_le hlocal
  | admitted => exact hlocal.1.attempts_le
  | done result =>
    simp only [Local] at hlocal
    split_ifs at hlocal
    · exact Spent.attempts_le hlocal
    · exact hlocal.1.attempts_le
  | failed => exact hlocal.1.attempts_le

/-- Exactly-once accounting, at every moment of every run: the bound on the set, and for
every call the bound on its attempts, the members it has added by the time it returns or raises,
and the `remaining` it reports. -/
theorem exactly_once_accounting (hlimit : 0 < limit) {s : ZServer}
    (hempty : (s.keys key).members = []) {p : HitPool}
    {tr : List (Transition HitPool HitLabel)}
    (hrun : Run (HitStep config key limit windowSeconds) (Pool.fresh s) tr p) :
    ((p.store.keys key).members.length : Int) ≤ limit ∧ ∀ i,
      (attempts i (Pool.history tr) : Int) ≤ max config.rateLimitWatchRetries 1 ∧
      (∀ result, p.procs i = some (.ret result) → result.exceeded = true →
        added key i (Pool.history tr) = 0) ∧
      (∀ result, p.procs i = some (.ret result) → result.exceeded = false →
        added key i (Pool.history tr) = 1 ∧
        ∃ x ∈ Pool.history tr, x.label.proc = some i ∧ isExec x.label = true ∧
          result.remaining = limit - (x.after.keys key).members.length) ∧
      (∀ e, p.procs i = some (.raise e) →
        added key i (Pool.history tr) = 0 ∧ ∀ message, e ≠ .runtimeError message) := by
  obtain ⟨hshared, hstarted, hpoint⟩ := hit_invariant hlimit hempty hrun
  refine ⟨hshared.card_le, fun i => ⟨?_, ?_, ?_, ?_⟩⟩
  · have hle : attempts i (Pool.history tr) ≤ maxAttempts config := by
      cases hi : p.procs i with
      | none =>
        rw [(made_of_not_started key (hstarted i hi)).1]
        exact Nat.zero_le _
      | some prog =>
        obtain ⟨q, -, hlocal⟩ := hpoint i prog hi
        exact hlocal.attempts_le
    unfold maxAttempts at hle
    omega
  · intro result hi hexceeded
    obtain ⟨q, hfollows, hlocal⟩ := hpoint i _ hi
    obtain rfl := eq_done_of_ret hfollows
    simp only [Local, hexceeded, if_true] at hlocal
    exact Spent.added_eq hlocal
  · intro result hi hexceeded
    obtain ⟨q, hfollows, hlocal⟩ := hpoint i _ hi
    obtain rfl := eq_done_of_ret hfollows
    simp only [Local, hexceeded, Bool.false_eq_true, if_false] at hlocal
    obtain ⟨hspent, n, ⟨x, hx, hproc, hexec, hcard⟩, hremaining⟩ := hlocal
    exact ⟨hspent.added_eq, x, hx, hproc, hexec, hcard ▸ hremaining⟩
  · intro e hi
    obtain ⟨q, hfollows, hlocal⟩ := hpoint i _ hi
    obtain rfl := eq_failed_of_raise hfollows
    exact ⟨hlocal.1.added_eq, hlocal.2⟩

/-- With a limit of two requests, a call is left after it has counted, and another one is admitted
in between: the first has to try again, and is admitted too. -/
theorem exists_contended_run : ∃ tr p first second,
    Run (HitStep sampleConfig "key" 2 60) (Pool.fresh (.empty 1000)) tr p ∧
    p.procs 0 = some (.ret first) ∧ p.procs 1 = some (.ret second) ∧
    first.exceeded = false ∧ second.exceeded = false ∧
    (p.store.keys "key").members.length = 2 ∧ p.store.now = 1000 := by
  obtain ⟨t, hsecond, u, hfirst, hlength, hnow⟩ : ∃ t,
      (hit sampleConfig "key" 2 60).run ZServer.exec
        ((hit sampleConfig "key" 2 60).advance ZServer.exec 4 (.empty 1000)).2 =
          (.ok ⟨2, 60, 0, 1, 61, false⟩, t) ∧ ∃ u,
      ((hit sampleConfig "key" 2 60).advance ZServer.exec 4 (.empty 1000)).1.run ZServer.exec t =
          (.ok ⟨2, 60, 0, 0, 61, false⟩, u) ∧ (u.keys "key").members.length = 2 ∧ u.now = 1000 :=
    ⟨_, rfl, _, rfl, rfl, rfl⟩
  obtain ⟨tr, p, hrun, rfl, hret₀, hret₁, -⟩ := Pool.exists_contended_run 4 hsecond hfirst
  exact ⟨tr, p, _, _, hrun, hret₀, hret₁, rfl, rfl, hlength, hnow⟩

/-- Each of these calls has added one member, and there are no others. -/
theorem exactly_once_accounting_two : ∃ tr p,
    Run (HitStep sampleConfig "key" 2 60) (Pool.fresh (.empty 1000)) tr p ∧
    added "key" 0 (Pool.history tr) = 1 ∧ added "key" 1 (Pool.history tr) = 1 ∧
    (p.store.keys "key").members.length = 2 := by
  obtain ⟨tr, p, first, second, hrun, hret₀, hret₁, hfirst, hsecond, hlength, -⟩ :=
    exists_contended_run
  have hcalls := (exactly_once_accounting (by decide) rfl hrun).2
  exact ⟨tr, p, hrun, ((hcalls 0).2.2.1 first hret₀ hfirst).1,
    ((hcalls 1).2.2.1 second hret₁ hsecond).1, hlength⟩

end BaseWebService.RateLimit
