import Mathlib.Order.Bounds.Basic
import BaseWebService.RateLimit.Bag

/-!
# What a call promises

A call of `hit` tells its client how many more requests it has, or how long it must wait. For
calls that come one after the other both promises are kept to the request and to the second:
between two calls the key is `Settled`, so its oldest score decides when there is room again.
-/

namespace BaseWebService.RateLimit

open Library Redis RedisSlidingWindowRateLimiter

/-- A call at a time, and how it ends. -/
structure HitEvent where
  time : Int
  outcome : Except Error RateLimitResult

def HitEvent.admitted (e : HitEvent) : Bool :=
  match e.outcome with
  | .ok result => !result.exceeded
  | .error _ => false

def HitEvent.rejected (e : HitEvent) : Bool :=
  match e.outcome with
  | .ok result => result.exceeded
  | .error _ => false

/-- One call after the other. -/
def Serial (config : RateLimitConfig) (key : String) (limit windowSeconds : Int) (s : ZServer)
    (e : HitEvent) (t : ZServer) : Prop :=
  s.now ≤ e.time ∧
    (hit config key limit windowSeconds).run ZServer.exec (s.advance e.time) = (e.outcome, t)

/-- The oldest entry of the key that is still in the window. -/
def OldestLive (key : String) (windowSeconds : Int) (s : ZServer) (oldest : Int) : Prop :=
  IsLeast {score | (∃ id, (id, score) ∈ (s.keys key).members) ∧
    s.now - windowSeconds * 1000 < score} oldest

/-- A key between two calls. -/
structure Settled (key : String) (limit windowSeconds : Int) (s : ZServer) (b : Bag) : Prop where
  stored : Stored key s b
  ordered : (s.keys key).Ordered
  now : 0 ≤ s.now
  card_le : (b.scores.card : Int) ≤ limit
  past : ∀ score ∈ b.scores, score ≤ s.now
  deadline : ∀ score ∈ b.scores, score + 2 * windowSeconds * 1000 ≤ b.deadline

/-- What a call at `time` answers, and what it leaves. -/
inductive Answers (key : String) (limit windowSeconds : Int) (b : Bag) (time : Int) (t : ZServer) :
    Except Error RateLimitResult → Prop where
  | rejected {result : RateLimitResult} {oldest : Int} :
      limit ≤ (b.live windowSeconds time).card → result.exceeded = true →
      IsLeast {score | score ∈ b.live windowSeconds time} oldest →
      result.retryAfterSeconds = redisRetryAfterSeconds (some oldest) time (windowSeconds * 1000) →
      Settled key limit windowSeconds t { b with scores := b.live windowSeconds time } →
      Answers key limit windowSeconds b time t (.ok result)
  | admitted {result : RateLimitResult} :
      (b.live windowSeconds time).card < limit → result.exceeded = false →
      result.remaining = limit - ((b.live windowSeconds time).card + 1) →
      Settled key limit windowSeconds t
        ⟨time ::ₘ b.live windowSeconds time, time + 2 * windowSeconds * 1000⟩ →
      Answers key limit windowSeconds b time t (.ok result)

section serial
variable {config : RateLimitConfig} {key : String} {limit windowSeconds time : Int} {s t : ZServer}
  {b : Bag}

theorem Stored.mem_iff (h : Stored key s b) {score : Int} :
    score ∈ b.scores ↔ ∃ id, (id, score) ∈ (s.keys key).members := by
  rw [← h.scores, Multiset.mem_coe, List.mem_map]
  constructor
  · rintro ⟨⟨id, score'⟩, hmem, rfl⟩
    exact ⟨id, hmem⟩
  · rintro ⟨id, hmem⟩
    exact ⟨_, hmem, rfl⟩

/-- The first member of a key in order is its oldest one. -/
theorem Stored.oldestIn (h : Stored key s b) (hordered : (s.keys key).Ordered)
    (hne : b.scores ≠ 0) :
    ∃ oldest, oldestIn key s = some oldest ∧ IsLeast {score | score ∈ b.scores} oldest := by
  unfold RateLimit.oldestIn
  cases hmembers : (s.keys key).members with
  | nil =>
    refine absurd ?_ hne
    rw [← h.scores, hmembers]
    rfl
  | cons m ms =>
    refine ⟨m.2, rfl, ?_, ?_⟩
    · exact h.mem_iff.mpr ⟨m.1, hmembers ▸ List.mem_cons_self ..⟩
    · intro score hscore
      obtain ⟨id, hmem⟩ := h.mem_iff.mp hscore
      have hpairs : (m :: ms).Pairwise fun a b => a.2 ≤ b.2 := hmembers ▸ hordered
      rw [hmembers] at hmem
      rcases List.mem_cons.mp hmem with hhead | htail
      · exact hhead ▸ Int.le_refl _
      · exact List.rel_of_pairwise_cons hpairs htail

/-- The expiry of the key never takes a score that is still in the window. -/
theorem Settled.live_purge (h : Settled key limit windowSeconds s b) (hwindow : 0 < windowSeconds)
    (time : Int) : (b.purge time).live windowSeconds time = b.live windowSeconds time := by
  unfold Bag.purge
  split_ifs with hdue
  · refine Eq.symm (Multiset.filter_eq_nil.mpr fun score hscore hlive => ?_)
    have hdeadline := h.deadline score hscore
    omega
  · rfl

theorem Bag.purge_deadline (b : Bag) (time : Int) : (b.purge time).deadline = b.deadline := by
  unfold Bag.purge
  split_ifs
  · rfl
  · rfl

/-- Every call is answered, and leaves the key settled. -/
theorem Settled.answers (h : Settled key limit windowSeconds s b) (hlimit : 0 < limit)
    (hwindow : 0 < windowSeconds) {outcome : Except Error RateLimitResult}
    (hstep : Serial config key limit windowSeconds s ⟨time, outcome⟩ t) :
    Answers key limit windowSeconds b time t outcome := by
  obtain ⟨hnow, hrun⟩ : s.now ≤ time ∧ (hit config key limit windowSeconds).run ZServer.exec
    (s.advance time) = (outcome, t) := hstep
  have hstored := (h.stored.advance time).trim windowSeconds
  have hordered : ((trimmed key (s.advance time) windowSeconds).keys key).Ordered := by
    refine h.ordered.of_shrinks ((s.keys key).purge_shrinks time) |>.of_shrinks ?_
    rw [trimmed, ZServer.set_keys_self]
    exact ZKey.trim_shrinks _ _ _
  change Stored key (trimmed key (s.advance time) windowSeconds)
    ⟨(b.purge time).live windowSeconds time, (b.purge time).deadline⟩ at hstored
  rw [h.live_purge hwindow, Bag.purge_deadline] at hstored
  have hlive : ∀ score ∈ b.live windowSeconds time, score ∈ b.scores :=
    fun score hscore => Multiset.mem_of_mem_filter hscore
  have htime : 0 ≤ time := h.now.trans hnow
  have hcard : ((trimmed key (s.advance time) windowSeconds).keys key).members.length =
      (b.live windowSeconds time).card := hstored.card
  rw [run_hit config key _ hlimit hwindow, hcard] at hrun
  split_ifs at hrun with hfull
  · obtain ⟨rfl, rfl⟩ := Prod.mk.inj hrun
    have hne : b.live windowSeconds time ≠ 0 := by
      intro hnil
      simp only [hnil, Multiset.card_zero] at hfull
      omega
    obtain ⟨oldest, holdest, hleast⟩ := hstored.oldestIn hordered hne
    refine .rejected hfull rfl hleast ?_ ?_
    · rw [holdest]
      rfl
    · refine ⟨hstored, hordered, htime, ?_, ?_, ?_⟩
      · exact (Int.ofNat_le.mpr (Multiset.card_le_card (Multiset.filter_le _ _))).trans h.card_le
      · exact fun score hscore => (h.past score (hlive score hscore)).trans hnow
      · exact fun score hscore => h.deadline score (hlive score hscore)
  · obtain ⟨rfl, rfl⟩ := Prod.mk.inj hrun
    have hadmit := hstored.commit htime (windowTtlSeconds windowSeconds)
    refine .admitted (by omega) rfl ?_ ?_
    · simp only [admittedResult]
      omega
    · refine ⟨?_, ?_, htime, ?_, ?_, ?_⟩
      · rw [windowTtlSeconds_eq hwindow] at hadmit
        rw [admission, windowTtlSeconds_eq hwindow]
        exact hadmit
      · simpa [admission, ZServer.queued] using (hordered.add _).expire _
      · rw [Multiset.card_cons]
        omega
      · intro score hscore
        rcases Multiset.mem_cons.mp hscore with rfl | hscore
        · exact Int.le_refl _
        · exact (h.past score (hlive score hscore)).trans hnow
      · intro score hscore
        rcases Multiset.mem_cons.mp hscore with rfl | hscore
        · exact Int.le_refl _
        · have hpast := h.past score (hlive score hscore)
          dsimp only
          omega

end serial

/-! ## Runs of calls -/

section runs
variable {config : RateLimitConfig} {key : String} {limit windowSeconds oldest : Int}
  {s t u : ZServer} {b : Bag} {tr : List (Transition ZServer HitEvent)}

/-- A key that holds nothing is settled. -/
theorem settled_of_missing (hlimit : 0 < limit) (hnow : 0 ≤ s.now)
    (hmissing : (s.keys key).members = []) : Settled key limit windowSeconds s .empty := by
  refine ⟨stored_of_missing hmissing rfl, ?_, hnow, ?_, ?_, ?_⟩
  · rw [ZKey.Ordered, hmissing]
    exact List.Pairwise.nil
  · simpa [Bag.empty] using hlimit.le
  · simp [Bag.empty]
  · simp [Bag.empty]

/-- A call takes no time. -/
theorem Serial.now_eq {e : HitEvent} (hstep : Serial config key limit windowSeconds s e t) :
    t.now = e.time := by
  obtain ⟨-, hrun⟩ := hstep
  have hkeeps := Prog.run_invariant (I := fun u : ZServer => u.now = e.time) ZServer.exec
    (fun c u hu => (ZServer.exec_now c u).trans hu) (hit config key limit windowSeconds)
    (s := s.advance e.time) rfl
  rw [hrun] at hkeeps
  exact hkeeps

theorem Settled.step (h : Settled key limit windowSeconds s b) (hlimit : 0 < limit)
    (hwindow : 0 < windowSeconds) {e : HitEvent}
    (hstep : Serial config key limit windowSeconds s e t) :
    ∃ b', Settled key limit windowSeconds t b' := by
  obtain ⟨time, outcome⟩ := e
  cases h.answers hlimit hwindow hstep with
  | rejected _ _ _ _ hsettled => exact ⟨_, hsettled⟩
  | admitted _ _ _ hsettled => exact ⟨_, hsettled⟩

/-- Sequential calls leave the key settled. -/
theorem exists_settled (hlimit : 0 < limit) (hwindow : 0 < windowSeconds) (hnow : 0 ≤ s.now)
    (hmissing : (s.keys key).members = [])
    (hrun : Run (Serial config key limit windowSeconds) s tr t) :
    ∃ b, Settled key limit windowSeconds t b := by
  refine hrun.invariant (I := fun u => ∃ b, Settled key limit windowSeconds u b) ?_ ?_
  · rintro s e t ⟨b, h⟩ hstep
    exact h.step hlimit hwindow hstep
  · exact ⟨_, settled_of_missing hlimit hnow hmissing⟩

/-- Nothing leaves the window before its oldest score does. -/
theorem live_of_early {time : Int} (hold : ∀ score ∈ b.scores, oldest ≤ score)
    (hearly : time < oldest + windowSeconds * 1000) : b.live windowSeconds time = b.scores := by
  refine Multiset.filter_eq_self.mpr fun score hscore => ?_
  have hle := hold score hscore
  omega

/-- Calls before the oldest score leaves the window: they fill the room that is left, in order, and
the rest are rejected. -/
theorem Settled.fill (h : Settled key limit windowSeconds t b) (hlimit : 0 < limit)
    (hwindow : 0 < windowSeconds) (hold : ∀ score ∈ b.scores, oldest ≤ score)
    (holdest : oldest ≤ t.now) (hrun : Run (Serial config key limit windowSeconds) t tr u)
    (hearly : u.now < oldest + windowSeconds * 1000) :
    ∃ b', Settled key limit windowSeconds u b' ∧ (∀ score ∈ b'.scores, oldest ≤ score) ∧
      t.now ≤ u.now ∧ (b'.scores.card : Int) = min ((b.scores.card : Int) + tr.length) limit ∧
      Throughout (fun past x =>
        (past.length < limit - b.scores.card → x.label.admitted = true) ∧
        (limit - b.scores.card ≤ past.length → x.label.rejected = true)) tr := by
  induction hrun with
  | nil =>
    refine ⟨b, h, hold, Int.le_refl _, ?_, throughout_nil⟩
    have hcard := h.card_le
    simp only [List.length_nil]
    omega
  | @snoc tr u v e _ hstep ih =>
    obtain ⟨time, outcome⟩ := e
    have hnow : v.now = time := hstep.now_eq
    have htime : u.now ≤ time := hstep.1
    obtain ⟨b', hsettled, hold', hclock, hcard, hall⟩ := ih (by omega)
    have hanswers := hsettled.answers hlimit hwindow hstep
    rw [hnow] at hearly ⊢
    have hlive := live_of_early hold' hearly
    simp only [List.length_append, List.length_singleton, throughout_snoc]
    cases hanswers with
    | rejected hfull hexceeded _ _ hsettled' =>
      rw [hlive] at hfull hsettled'
      refine ⟨_, hsettled', hold', by omega, ?_, hall, ?_, ?_⟩
      · change (b'.scores.card : Int) = _
        omega
      · intro hroom
        omega
      · exact fun _ => hexceeded
    | admitted hroom hexceeded _ hsettled' =>
      rw [hlive] at hroom hsettled'
      refine ⟨_, hsettled', ?_, by omega, ?_, hall, ?_, ?_⟩
      · intro score hscore
        rcases Multiset.mem_cons.mp hscore with rfl | hscore
        · omega
        · exact hold' score hscore
      · rw [Multiset.card_cons]
        omega
      · intro _
        simp [HitEvent.admitted, hexceeded]
      · intro hfull
        omega

/-- While every call is rejected nothing is added. -/
theorem Settled.drain (h : Settled key limit windowSeconds t b) (hlimit : 0 < limit)
    (hwindow : 0 < windowSeconds) (hrun : Run (Serial config key limit windowSeconds) t tr u)
    (hrejected : ∀ x ∈ tr, x.label.rejected = true) :
    ∃ b', Settled key limit windowSeconds u b' ∧ b'.scores ≤ b.scores := by
  induction hrun with
  | nil => exact ⟨b, h, le_rfl⟩
  | @snoc tr u v e _ hstep ih =>
    obtain ⟨b', hsettled, hle⟩ := ih fun x hx => hrejected x (List.mem_append_left _ hx)
    have hlast := hrejected ⟨u, e, v⟩ (by simp)
    obtain ⟨time, outcome⟩ := e
    cases hsettled.answers hlimit hwindow hstep with
    | rejected _ _ _ _ hsettled' => exact ⟨_, hsettled', (Multiset.filter_le _ _).trans hle⟩
    | admitted _ hexceeded _ _ => simp [HitEvent.rejected, hexceeded] at hlast

/-- When the oldest of a full key leaves the window there is room again. -/
theorem Settled.room (h : Settled key limit windowSeconds t b) (hlimit : 0 < limit)
    (hwindow : 0 < windowSeconds) (holdest : oldest ∈ b.scores)
    (hrun : Run (Serial config key limit windowSeconds) t tr u)
    (hrejected : ∀ x ∈ tr, x.label.rejected = true) {v : ZServer} {e : HitEvent}
    (hstep : Serial config key limit windowSeconds u e v)
    (hlate : oldest + windowSeconds * 1000 ≤ e.time) : e.admitted = true := by
  obtain ⟨b', hsettled, hle⟩ := h.drain hlimit hwindow hrun hrejected
  obtain ⟨time, outcome⟩ := e
  have hfewer : (b'.live windowSeconds time).card < b.scores.card := by
    calc (b'.live windowSeconds time).card
        ≤ (b.live windowSeconds time).card :=
          Multiset.card_le_card (Multiset.filter_le_filter _ hle)
      _ < b.scores.card := by
          refine Multiset.card_lt_card (lt_of_le_of_ne (Multiset.filter_le _ _) fun heq => ?_)
          have hmem : oldest ∈ b.live windowSeconds time := by rwa [heq]
          have hwithin := Multiset.of_mem_filter hmem
          dsimp only at hlate
          omega
  have hcard := h.card_le
  cases hsettled.answers hlimit hwindow hstep with
  | rejected hfull _ _ _ _ => omega
  | admitted _ hexceeded _ _ => simp [HitEvent.admitted, hexceeded]

/-- What an admitted call leaves is in the window, its own entry included. -/
theorem live_of_admitted {time : Int} (hwindow : 0 < windowSeconds) :
    ∀ score ∈ time ::ₘ b.live windowSeconds time, time - windowSeconds * 1000 < score := by
  intro score hscore
  rcases Multiset.mem_cons.mp hscore with rfl | hscore
  · omega
  · exact Multiset.of_mem_filter hscore

theorem Settled.oldestLive (h : Settled key limit windowSeconds s b)
    (hlive : ∀ score ∈ b.scores, s.now - windowSeconds * 1000 < score)
    (hleast : IsLeast {score | score ∈ b.scores} oldest) :
    OldestLive key windowSeconds s oldest := by
  refine ⟨⟨h.stored.mem_iff.mp hleast.1, hlive _ hleast.1⟩, ?_⟩
  rintro score ⟨hmem, -⟩
  exact hleast.2 (h.stored.mem_iff.mpr hmem)

/-- A call that returns has been given a valid limit and a valid window. -/
theorem Serial.valid {time : Int} {result : RateLimitResult}
    (hstep : Serial config key limit windowSeconds s ⟨time, .ok result⟩ t) :
    0 < limit ∧ 0 < windowSeconds := by
  obtain ⟨-, hrun⟩ := hstep
  unfold hit validateWindowConfig at hrun
  split_ifs at hrun with hlimit hwindow
  · cases (Prod.mk.inj hrun).1
  · cases (Prod.mk.inj hrun).1
  · omega

/-- What the client is told after the `past` of the key is exact. `remaining` counts the
requests that are admitted until the oldest entry leaves the window; `retry_after_seconds` is the
least number of whole seconds after which a request is admitted. -/
theorem promises_exact {past : List (Transition ZServer HitEvent)} {time : Int}
    {result : RateLimitResult} {start : ZServer} (hnow : 0 ≤ start.now)
    (hmissing : (start.keys key).members = [])
    (hpast : Run (Serial config key limit windowSeconds) start past s)
    (hhit : Serial config key limit windowSeconds s ⟨time, .ok result⟩ t) :
    (result.exceeded = false → ∃ oldest, OldestLive key windowSeconds t oldest ∧
      ∀ tr u, Run (Serial config key limit windowSeconds) t tr u →
        u.now < oldest + windowSeconds * 1000 →
        Throughout (fun before x =>
          (before.length < result.remaining → x.label.admitted = true) ∧
          (result.remaining ≤ before.length → x.label.rejected = true)) tr) ∧
    (result.exceeded = true →
      ∀ tr u, Run (Serial config key limit windowSeconds) t tr u →
      ∀ e v, Serial config key limit windowSeconds u e v →
        ((∀ x ∈ tr, x.label.rejected = true) →
          time + 1000 * result.retryAfterSeconds ≤ e.time → e.admitted = true) ∧
        (e.time ≤ time + 1000 * (result.retryAfterSeconds - 1) → e.rejected = true)) := by
  obtain ⟨hlimit, hwindow⟩ := hhit.valid
  obtain ⟨b, hsettled⟩ := exists_settled hlimit hwindow hnow hmissing hpast
  have hclock : t.now = time := hhit.now_eq
  cases hsettled.answers hlimit hwindow hhit with
  | admitted hroom hexceeded hremaining hsettled' =>
    refine ⟨fun _ => ?_, fun h => by simp [hexceeded] at h⟩
    obtain ⟨oldest, -, hleast⟩ :=
      hsettled'.stored.oldestIn hsettled'.ordered (Multiset.cons_ne_zero)
    have hlive : OldestLive key windowSeconds t oldest :=
      hsettled'.oldestLive (hclock ▸ live_of_admitted hwindow) hleast
    refine ⟨oldest, hlive, fun tr u hrun hearly => ?_⟩
    obtain ⟨-, -, -, -, -, hall⟩ := hsettled'.fill hlimit hwindow (fun _ h => hleast.2 h)
      (hsettled'.past _ hleast.1) hrun hearly
    rw [hremaining]
    rw [Multiset.card_cons] at hall
    exact_mod_cast hall
  | @rejected _ oldest hfull hexceeded hleast hretry hsettled' =>
    refine ⟨fun h => by simp [hexceeded] at h, fun _ tr u hrun e v hstep => ⟨?_, ?_⟩⟩
    · intro hrejected hlate
      refine hsettled'.room hlimit hwindow hleast.1 hrun hrejected hstep ?_
      simp only [hretry, redisRetryAfterSeconds, ceilSeconds] at hlate
      omega
    · intro hearly
      have hlive : time - windowSeconds * 1000 < oldest := Multiset.of_mem_filter hleast.1
      have hend : v.now < oldest + windowSeconds * 1000 := by
        rw [hstep.now_eq]
        simp only [hretry, redisRetryAfterSeconds, ceilSeconds] at hearly
        omega
      obtain ⟨-, -, -, -, -, hall⟩ := hsettled'.fill hlimit hwindow (fun _ h => hleast.2 h)
        (hsettled'.past _ hleast.1) (hrun.snoc hstep) hend
      refine (throughout_snoc.mp hall).2.2 ?_
      change limit - ((b.live windowSeconds time).card : Int) ≤ _
      omega

end runs

/-- The third request of a minute is told to wait for half a minute more: none is admitted before
the last second of it, and the first after it is. -/
theorem promises_exact_third : ∃ t u v,
    Serial sampleConfig "key" 2 60 (.empty 1000) ⟨1000, .ok ⟨2, 60, 0, 1, 61, false⟩⟩ t ∧
    Serial sampleConfig "key" 2 60 t ⟨21000, .ok ⟨2, 60, 0, 0, 61, false⟩⟩ u ∧
    Serial sampleConfig "key" 2 60 u ⟨31000, .ok ⟨2, 60, 30, 0, 61, true⟩⟩ v ∧
    ∀ tr w, Run (Serial sampleConfig "key" 2 60) v tr w →
      ∀ e x, Serial sampleConfig "key" 2 60 w e x →
        ((∀ y ∈ tr, y.label.rejected = true) → 31000 + 1000 * 30 ≤ e.time → e.admitted = true) ∧
        (e.time ≤ 31000 + 1000 * 29 → e.rejected = true) := by
  obtain ⟨t, u, v, hfirst, hsecond, hthird, hnow, hnow'⟩ : ∃ t u v,
      (hit sampleConfig "key" 2 60).run ZServer.exec ((ZServer.empty 1000).advance 1000) =
        (.ok ⟨2, 60, 0, 1, 61, false⟩, t) ∧
      (hit sampleConfig "key" 2 60).run ZServer.exec (t.advance 21000) =
        (.ok ⟨2, 60, 0, 0, 61, false⟩, u) ∧
      (hit sampleConfig "key" 2 60).run ZServer.exec (u.advance 31000) =
        (.ok ⟨2, 60, 30, 0, 61, true⟩, v) ∧ t.now = 1000 ∧ u.now = 21000 :=
    ⟨_, _, _, rfl, rfl, rfl, rfl, rfl⟩
  have hserial : Serial sampleConfig "key" 2 60 (.empty 1000)
      ⟨1000, .ok ⟨2, 60, 0, 1, 61, false⟩⟩ t := ⟨Int.le_refl _, hfirst⟩
  have hserial' : Serial sampleConfig "key" 2 60 t ⟨21000, .ok ⟨2, 60, 0, 0, 61, false⟩⟩ u :=
    ⟨by simp [hnow], hsecond⟩
  have hserial'' : Serial sampleConfig "key" 2 60 u ⟨31000, .ok ⟨2, 60, 30, 0, 61, true⟩⟩ v :=
    ⟨by simp [hnow'], hthird⟩
  refine ⟨t, u, v, hserial, hserial', hserial'', ?_⟩
  exact (promises_exact (by decide) rfl ((Run.single hserial).snoc hserial') hserial'').2 rfl

end BaseWebService.RateLimit
