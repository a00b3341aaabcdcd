import BaseWebService.RateLimit.Accounting

/-!
# The sliding window

However the calls interleave, no half-open interval shorter than the window by the lag of the
clock readings sees more than `limit` applied transactions: at the last of them, the members the
others added are still in the set.
-/

namespace BaseWebService.RateLimit

open Library Redis RedisSlidingWindowRateLimiter

/-- An applied transaction at a time from `a` up to `endMs`. -/
def execIn (a endMs : Int) (x : Transition ZServer HitLabel) : Bool :=
  isExec x.label && decide (a ≤ x.before.now ∧ x.before.now < endMs)

/-- Every applied transaction comes at most `lag` after the clock reading of its own attempt. -/
def LagAtMost (lag : Int) (h : HitHistory) : Prop :=
  ∀ past x future i nowMs, h = past ++ x :: future → isExec x.label = true →
    x.label.proc = some i → clockRead i past = some nowMs → x.before.now - nowMs ≤ lag

theorem LagAtMost.of_append {lag : Int} {h h' : HitHistory} (hlag : LagAtMost lag (h ++ h')) :
    LagAtMost lag h := by
  intro past x future i nowMs hsplit
  exact hlag past x (future ++ h') i nowMs (by simp [hsplit])

variable {config : RateLimitConfig} {key : String} {limit windowSeconds lag : Int}

/-- While an interval lasts, every transaction applied in it still has its member in the set. -/
theorem Shared.mem_of_execIn {h : HitHistory} {s : ZServer}
    (hshared : Shared key limit windowSeconds h s) (hnonneg : 0 ≤ lag) (hlag : LagAtMost lag h)
    {a : Int} (hopen : s.now < a + (windowSeconds * 1000 - lag)) {x : Transition ZServer HitLabel}
    (hx : x ∈ h) (hin : execIn a (a + (windowSeconds * 1000 - lag)) x = true) :
    x.before.nextUuid ∈ (s.keys key).members.map (·.1) := by
  simp only [execIn, Bool.and_eq_true, decide_eq_true_eq] at hin
  obtain ⟨hexec, hafter, -⟩ := hin
  obtain ⟨past, future, hsplit⟩ := List.append_of_mem hx
  obtain ⟨i, score, hproc, hread, hwhere⟩ := hshared.accounted past x future hsplit hexec
  have hclose := hlag past x future i score hsplit hexec hproc hread
  have hpast := (hshared.past x hx hexec).2
  rcases hwhere with hmem | hwindow | hexpired
  · exact List.mem_map.mpr ⟨_, hmem, rfl⟩
  · omega
  · omega

/-- So the transactions of an interval that has not ended are at most the members of the set. -/
theorem Shared.count_le {h : HitHistory} {s : ZServer}
    (hshared : Shared key limit windowSeconds h s) (hnonneg : 0 ≤ lag) (hlag : LagAtMost lag h)
    {a : Int} (hopen : s.now < a + (windowSeconds * 1000 - lag)) :
    (h.countP (execIn a (a + (windowSeconds * 1000 - lag))) : Int) ≤ limit := by
  let span := h.filter (execIn a (a + (windowSeconds * 1000 - lag)))
  have hdistinct : (span.map (·.before.nextUuid)).Nodup := by
    have hsub : span.Sublist (h.filter fun x => isExec x.label) :=
      List.monotone_filter_right _ fun x hx => (Bool.and_eq_true_iff.mp hx).1
    exact (hsub.map _).nodup hshared.distinct
  have hsubset : span.map (·.before.nextUuid) ⊆ (s.keys key).members.map (·.1) := by
    intro id hid
    obtain ⟨x, hx, rfl⟩ := List.mem_map.mp hid
    obtain ⟨hx, hin⟩ := List.mem_filter.mp hx
    exact hshared.mem_of_execIn hnonneg hlag hopen hx hin
  have hcount := (List.subperm_of_subset hdistinct hsubset).length_le
  have hcard := hshared.card_le
  rw [List.length_map, List.length_map] at hcount
  rw [List.countP_eq_length_filter]
  exact (Int.ofNat_le.mpr hcount).trans hcard

/-- A transaction takes no time. -/
theorem now_of_isExec {p q : HitPool} {l : HitLabel}
    (hstep : HitStep config key limit windowSeconds p l q) (hexec : isExec l = true) :
    q.store.now = p.store.now := by
  cases hstep with
  | @issue i c k hi => exact ZServer.exec_now c p.store
  | start | env => exact absurd hexec Bool.false_ne_true

/-- No interval of the window's length less the lag contains more than `limit` applied
transactions. -/
theorem window_bound (hlimit : 0 < limit) (hnonneg : 0 ≤ lag) {s : ZServer}
    (hempty : (s.keys key).members = []) {p : HitPool}
    {tr : List (Transition HitPool HitLabel)}
    (hrun : Run (HitStep config key limit windowSeconds) (Pool.fresh s) tr p)
    (hlag : LagAtMost lag (Pool.history tr)) (a : Int) :
    ((Pool.history tr).countP (execIn a (a + (windowSeconds * 1000 - lag))) : Int) ≤ limit := by
  induction hrun with
  | nil => simpa using hlimit.le
  | @snoc tr p q l hrun hstep ih =>
    have hshared := (hit_invariant hlimit hempty (hrun.snoc hstep)).shared
    rw [Pool.history_append] at hlag hshared ⊢
    by_cases hin : execIn a (a + (windowSeconds * 1000 - lag)) ⟨p.store, l, q.store⟩ = true
    · -- The last transaction of the interval: the clock still stands inside it.
      refine hshared.count_le hnonneg hlag ?_
      simp only [execIn, Bool.and_eq_true, decide_eq_true_eq] at hin
      rw [now_of_isExec hstep hin.1]
      exact hin.2.2
    · have hsame : (Pool.history [(⟨p, l, q⟩ : Transition HitPool HitLabel)]).countP
          (execIn a (a + (windowSeconds * 1000 - lag))) = 0 := by
        simpa using hin
      rw [List.countP_append, hsame, Nat.add_zero]
      exact ih hlag.of_append

/-- A run's clock readings lag by no more than the run takes. -/
theorem lagAtMost_duration {s : ZServer} {p : HitPool} {tr : List (Transition HitPool HitLabel)}
    (hrun : Run (HitStep config key limit windowSeconds) (Pool.fresh s) tr p) :
    s.now ≤ p.store.now ∧
      (∀ i nowMs, clockRead i (Pool.history tr) = some nowMs → s.now ≤ nowMs) ∧
      LagAtMost (p.store.now - s.now) (Pool.history tr) := by
  induction hrun with
  | nil => exact ⟨Int.le_refl _, by simp [clockRead], by simp [LagAtMost]⟩
  | @snoc tr p q l hrun hstep ih =>
    obtain ⟨hclock, hreads, hlag⟩ := ih
    have hnow : p.store.now ≤ q.store.now := by
      cases hstep with
      | start => exact Int.le_refl _
      | @issue i c k hi => exact (ZServer.exec_now c p.store).ge
      | env hpasses => exact (hpasses.change key).now_le
    have hread : ∀ i nowMs, readBy i l = some nowMs → nowMs = p.store.now := by
      intro i nowMs hread
      cases hstep with
      | @issue j c k hi =>
        cases c with
        | time =>
          simp only [readBy] at hread
          split_ifs at hread
          exact (Option.some.inj hread).symm
        | _ => cases hread
      | start | env => cases hread
    refine ⟨hclock.trans hnow, fun i nowMs hsome => ?_, ?_⟩
    · rw [Pool.history_append, Pool.history_cons, Pool.history_nil, clockRead_snoc] at hsome
      cases hl : readBy i l with
      | none =>
        rw [hl] at hsome
        exact hreads i nowMs hsome
      | some now =>
        rw [hl] at hsome
        obtain rfl : now = nowMs := Option.some.inj hsome
        exact hread i now hl ▸ hclock
    · intro past x future i nowMs hsplit hexec hproc hsome
      rw [Pool.history_append, Pool.history_cons, Pool.history_nil] at hsplit
      rcases snoc_eq_append_cons hsplit with ⟨rfl, rfl⟩ | ⟨future', hpast⟩
      · have hle := hreads i nowMs hsome
        simp only
        omega
      · have hle := hlag past x future' i nowMs hpast hexec hproc hsome
        omega

/-- The two calls in contention fill their window. -/
theorem window_bound_two : ∃ tr p,
    Run (HitStep sampleConfig "key" 2 60) (Pool.fresh (.empty 1000)) tr p ∧
    (p.store.keys "key").members.length = 2 ∧
    ((Pool.history tr).countP (execIn 1000 61000) : Int) ≤ 2 := by
  obtain ⟨tr, p, first, second, hrun, -, -, -, -, hlength, hnow⟩ := exists_contended_run
  have hlag := (lagAtMost_duration hrun).2.2
  rw [hnow] at hlag
  exact ⟨tr, p, hrun, hlength, window_bound (by decide) (Int.le_refl _) rfl hrun hlag 1000⟩

end BaseWebService.RateLimit
