import Mathlib.Data.Multiset.Filter
import BaseWebService.RateLimit.Flow

/-!
# A key as a bag of scores

What one key remembers, for calls of `hit` that run one after the other: the bag of the scores it
holds and the time it expires. `hit_spec` says that a whole call of `hit` is one step of the
bag; limits, windows and stacked dependencies are then reasoned about on bags.
-/

namespace BaseWebService.RateLimit

open Library Redis RedisSlidingWindowRateLimiter

/-- An empty bag is the missing key, and its deadline means nothing. -/
structure Bag where
  scores : Multiset Int
  deadline : Int

namespace Bag

def empty : Bag := ⟨0, 0⟩

/-- The scores still in a window that ends at `now`. -/
def live (b : Bag) (windowSeconds now : Int) : Multiset Int :=
  b.scores.filter fun score => now - windowSeconds * 1000 < score

/-- A call of `hit` at `now`: whether it is admitted, and what it leaves. -/
def hit (limit windowSeconds now : Int) (b : Bag) : Bool × Bag :=
  if limit ≤ (b.live windowSeconds now).card then
    (false, { b with scores := b.live windowSeconds now })
  else (true, ⟨now ::ₘ b.live windowSeconds now, now + 2 * windowSeconds * 1000⟩)

/-- Time moves on to `now`. -/
def purge (b : Bag) (now : Int) : Bag := if b.deadline ≤ now then { b with scores := 0 } else b

end Bag

/-- The key holds the bag. -/
structure Stored (key : String) (s : ZServer) (b : Bag) : Prop where
  scores : (((s.keys key).members.map (·.2) : List Int) : Multiset Int) = b.scores
  deadline : b.scores ≠ 0 → (s.keys key).deadline = some b.deadline
  nonneg : ∀ score ∈ b.scores, 0 ≤ score

variable {key : String} {s : ZServer} {b : Bag}

theorem Stored.card (h : Stored key s b) : (s.keys key).members.length = b.scores.card := by
  rw [← h.scores, Multiset.coe_card, List.length_map]

theorem stored_of_missing (hmembers : (s.keys key).members = []) (hscores : b.scores = 0) :
    Stored key s b :=
  ⟨by simp [hmembers, hscores], by simp [hscores], by simp [hscores]⟩

/-- Trimming leaves the scores of the window. -/
theorem Stored.trim (h : Stored key s b) (windowSeconds : Int) :
    Stored key (s.set key ((s.keys key).trim 0 (s.now - windowSeconds * 1000)))
      { b with scores := b.live windowSeconds s.now } := by
  have hmembers : (((s.keys key).trim 0 (s.now - windowSeconds * 1000)).members.map (·.2) :
      List Int) = ((s.keys key).members.map (·.2)).filter
        fun score => decide (s.now - windowSeconds * 1000 < score) := by
    rw [ZKey.trim, ZKey.keep_members _ List.filter_sublist, List.filter_map]
    congr 1
    refine List.filter_congr fun m hm => ?_
    have hscore : m.2 ∈ b.scores := by
      rw [← h.scores]
      exact List.mem_map_of_mem hm
    have hnonneg := h.nonneg _ hscore
    simp only [Function.comp_apply]
    grind
  refine ⟨?_, ?_, ?_⟩
  · rw [ZServer.set_keys_self, hmembers, ← Multiset.filter_coe, h.scores]
    rfl
  · intro hne
    rw [ZServer.set_keys_self]
    have hshrinks := (s.keys key).trim_shrinks 0 (s.now - windowSeconds * 1000)
    have hne' : ((s.keys key).trim 0 (s.now - windowSeconds * 1000)).members ≠ [] := by
      intro hnil
      rw [hnil] at hmembers
      refine hne ?_
      simp only [Bag.live]
      rw [← h.scores, Multiset.filter_coe, ← hmembers]
      rfl
    rw [hshrinks.deadline hne']
    refine h.deadline fun hnil => hne ?_
    simp [Bag.live, hnil]
  · intro score hscore
    exact h.nonneg score (Multiset.mem_of_mem_filter hscore)

/-- The transaction adds the time it was prepared at. -/
theorem Stored.commit (h : Stored key s b) (hnow : 0 ≤ s.now) (seconds : Int) :
    Stored key ([Queued.zadd key s.now, .expire key seconds].foldl ZServer.queued s)
      ⟨s.now ::ₘ b.scores, s.now + seconds * 1000⟩ := by
  obtain ⟨-, -, hadmits⟩ := s.admit_spec key s.now seconds
  refine ⟨?_, fun _ => hadmits.deadline, ?_⟩
  · rw [← h.scores, Multiset.cons_coe]
    exact Multiset.coe_eq_coe.mpr (hadmits.perm.map _)
  · intro score hscore
    rcases Multiset.mem_cons.mp hscore with rfl | hscore
    · exact hnow
    · exact h.nonneg score hscore

/-- Time moves on. -/
theorem Stored.advance (h : Stored key s b) (now : Int) :
    Stored key (s.advance now) (b.purge now) := by
  have hkey : (s.advance now).keys key = (s.keys key).purge now := rfl
  by_cases hempty : b.scores = 0
  · have hmissing : (s.keys key).members = [] := by
      rw [← List.length_eq_zero_iff, h.card, hempty, Multiset.card_zero]
    refine stored_of_missing ?_ ?_
    · have hsub := ((s.keys key).purge_shrinks now).sublist
      rw [hmissing, List.sublist_nil] at hsub
      exact hsub
    · unfold Bag.purge
      split_ifs
      · rfl
      · exact hempty
  · have hdeadline := h.deadline hempty
    unfold Bag.purge
    split_ifs with hdue
    · refine stored_of_missing ?_ rfl
      rw [hkey, ZKey.purge, hdeadline]
      simp only [if_pos hdue]
    · have hsame : (s.advance now).keys key = s.keys key := by
        rw [hkey, ZKey.purge, hdeadline]
        simp only [if_neg hdue]
      exact ⟨hsame ▸ h.scores, hsame ▸ h.deadline, h.nonneg⟩

/-! ## A whole call -/

section run

variable (config : RateLimitConfig) (key : String) {limit windowSeconds : Int} (s : ZServer)

/-- The store after an attempt has trimmed the key. -/
def trimmed (windowSeconds : Int) : ZServer :=
  s.set key ((s.keys key).trim 0 (s.now - windowSeconds * 1000))

/-- The oldest score an attempt reads. -/
def oldestIn : Option Int := redisOldestScore (((s.keys key).members.take 1).drop 0)

/-- An attempt left alone, up to the decision. -/
theorem runs_attempt (attempt left : ℕ) {r : Except Error RateLimitResult} {u : ZServer}
    (hruns : Runs (hitFlow config key limit windowSeconds) ZServer.exec
      (if (((trimmed key s windowSeconds).keys key).members.length : Int) ≥ limit then
        .exceeded s.now ((trimmed key s windowSeconds).keys key).members.length
          (oldestIn key (trimmed key s windowSeconds))
      else .commit attempt left s.now ((trimmed key s windowSeconds).keys key).version
        ((trimmed key s windowSeconds).keys key).members.length
        (oldestIn key (trimmed key s windowSeconds)))
      (trimmed key s windowSeconds) r u) :
    Runs (hitFlow config key limit windowSeconds) ZServer.exec (.clock attempt left) s r u :=
  .call rfl (.call rfl (.call rfl (.call rfl (.call rfl hruns))))

/-- The transaction, with the version it watched still in place. -/
theorem runs_commit (attempt left : ℕ) (nowMs : Int) (count : ℕ) (oldestScore : Option Int) :
    Runs (hitFlow config key limit windowSeconds) ZServer.exec
      (.commit attempt left nowMs (s.keys key).version count oldestScore) s
      (.ok (admittedResult limit windowSeconds nowMs count oldestScore s.now))
      ((admission key windowSeconds nowMs).foldl ZServer.queued s) := by
  refine .call rfl ?_
  have happlied : ZServer.exec (.execute key (s.keys key).version
      (admission key windowSeconds nowMs)) s =
      (true, (admission key windowSeconds nowMs).foldl ZServer.queued s) := if_pos rfl
  rw [happlied]
  exact .call rfl (.ret rfl)

/-- A call that no one disturbs succeeds in its first attempt: it is admitted if, after the trim,
there is room. -/
theorem run_hit (hlimit : 0 < limit) (hwindow : 0 < windowSeconds) :
    (hit config key limit windowSeconds).run ZServer.exec s =
      if limit ≤ ((trimmed key s windowSeconds).keys key).members.length then
        (.ok (exceededResult limit windowSeconds s.now
          ((trimmed key s windowSeconds).keys key).members.length
          (oldestIn key (trimmed key s windowSeconds)) s.now), trimmed key s windowSeconds)
      else (.ok (admittedResult limit windowSeconds s.now
          ((trimmed key s windowSeconds).keys key).members.length
          (oldestIn key (trimmed key s windowSeconds)) s.now),
        (admission key windowSeconds s.now).foldl ZServer.queued
          (trimmed key s windowSeconds)) := by
  have hfollows := hit_follows config key limit windowSeconds
  obtain ⟨left, hleft⟩ : ∃ left, (max config.rateLimitWatchRetries 1).toNat = left + 1 :=
    Nat.exists_eq_add_one.mpr (by omega)
  rw [Point.entry, if_neg (by omega), if_neg (by omega), hleft] at hfollows
  generalize hcount : ((trimmed key s windowSeconds).keys key).members.length = count
  have hattempt : ∀ r u, Runs (hitFlow config key limit windowSeconds) ZServer.exec _ _ r u →
      Runs (hitFlow config key limit windowSeconds) ZServer.exec (.clock 0 left) s r u :=
    fun _ _ => runs_attempt config key s 0 left
  rw [hcount] at hattempt
  by_cases hfull : limit ≤ count
  · rw [if_pos (show (count : Int) ≥ limit from hfull)] at hattempt
    rw [if_pos hfull]
    exact hfollows.run (hattempt _ _ (.call rfl (.ret rfl)))
  · rw [if_neg (show ¬ (count : Int) ≥ limit from hfull)] at hattempt
    rw [if_neg hfull]
    exact hfollows.run (hattempt _ _ (runs_commit config key _ 0 left _ _ _))

theorem windowTtlSeconds_eq (hwindow : 0 < windowSeconds) :
    windowTtlSeconds windowSeconds = 2 * windowSeconds := by
  unfold windowTtlSeconds
  omega

/-- A whole call of `hit` is one step of the bag. -/
theorem hit_spec {b : Bag} (h : Stored key s b) (hnow : 0 ≤ s.now) (hlimit : 0 < limit)
    (hwindow : 0 < windowSeconds) :
    ∃ result t, (hit config key limit windowSeconds).run ZServer.exec s = (.ok result, t) ∧
      result.exceeded = !(b.hit limit windowSeconds s.now).1 ∧ t.now = s.now ∧
      Stored key t (b.hit limit windowSeconds s.now).2 := by
  have hrun := run_hit config key s hlimit hwindow
  have htrimmed := h.trim windowSeconds
  have hcard : ((trimmed key s windowSeconds).keys key).members.length =
      (b.live windowSeconds s.now).card := htrimmed.card
  rw [hcard] at hrun
  rw [Bag.hit]
  split_ifs at hrun ⊢ with hfull
  · exact ⟨_, _, hrun, rfl, rfl, htrimmed⟩
  · refine ⟨_, _, hrun, rfl, rfl, ?_⟩
    have hadmit := Stored.commit htrimmed hnow (windowTtlSeconds windowSeconds)
    rw [windowTtlSeconds_eq hwindow] at hadmit
    rw [admission, windowTtlSeconds_eq hwindow]
    exact hadmit

end run

end BaseWebService.RateLimit
