import BaseWebService.RateLimit.Stacked

/-!
# Which stacked limits are enforced

For one limit the bag is the sliding window it should be. With two or more, each request is
counted once for every limit it passes and each limit trims for all: `enforced_iff_compatible`
says for which lists every limit is enforced all the same.
-/

namespace BaseWebService.RateLimit

open Library Redis

/-- Each limit holds on its own dependency: no window sees more than its requests pass, and a
request is rejected only by a limit that is used up. -/
def Enforced (deps : List Limit) (trace : List (Int × ℕ)) : Prop :=
  ∀ k d, deps[k]? = some d →
    (∀ a : Int,
      (trace.countP fun e => k < e.2 ∧ a ≤ e.1 ∧ e.1 < a + d.windowSeconds * 1000 : Int) ≤
        d.requests) ∧
    ∀ past now future, trace = past ++ (now, k) :: future →
      d.requests ≤ (past.countP fun e => k < e.2 ∧ now - d.windowSeconds * 1000 < e.1 : Int)

/-- Stacked limits that do not get in each other's way: the first admits one request at a time, the
others only ever see one request's own hits, and no expiry comes before the first window ends. -/
def Compatible : List Limit → Prop
  | [] => True
  | [_] => True
  | d₀ :: d₁ :: rest => d₀.requests = 1 ∧
    (∀ (k : ℕ) (d : Limit), (d₁ :: rest)[k]? = some d →
      (k : Int) + 1 < d.requests ∧ d.windowSeconds ≤ d.requests * d₀.windowSeconds) ∧
    ∀ d : Limit, (d₁ :: rest).getLast? = some d → d₀.windowSeconds ≤ 2 * d.windowSeconds

/-! ## One request on a bag -/

namespace Bag

/-- The scores one request has left: all of them its own time. -/
def own (now : Int) (c : ℕ) (deadline : Int) : Bag := ⟨Multiset.replicate c now, deadline⟩

theorem live_own {now windowSeconds deadline : Int} {c : ℕ} (hwindow : 0 < windowSeconds) :
    (own now c deadline).live windowSeconds now = Multiset.replicate c now := by
  refine Multiset.filter_eq_self.mpr fun score hscore => ?_
  rw [Multiset.eq_of_mem_replicate hscore]
  omega

/-- A hit at the same time as all that is stored. -/
theorem hit_own {limit windowSeconds now deadline : Int} {c : ℕ} (hwindow : 0 < windowSeconds) :
    (own now c deadline).hit limit windowSeconds now =
      if limit ≤ c then (false, own now c deadline)
      else (true, own now (c + 1) (now + 2 * windowSeconds * 1000)) := by
  rw [hit, live_own hwindow, Multiset.card_replicate]
  split_ifs
  · rfl
  · rw [own, Multiset.replicate_succ]

/-- A hit when nothing is left in its window. -/
theorem hit_of_old {b : Bag} {limit windowSeconds now : Int} (hlimit : 0 < limit)
    (hold : ∀ score ∈ b.scores, score ≤ now - windowSeconds * 1000) :
    b.hit limit windowSeconds now = (true, own now 1 (now + 2 * windowSeconds * 1000)) := by
  have hlive : b.live windowSeconds now = 0 :=
    Multiset.filter_eq_nil.mpr fun score hscore => by
      have := hold score hscore
      omega
  rw [hit, hlive, Multiset.card_zero, if_neg (by simpa using hlimit)]
  rfl

/-- A request adds one score for every limit it passes, and stops at the first limit that those
scores use up. -/
theorem serve_own (deps : List Limit) (now : Int) (c : ℕ) (deadline : Int) :
    ∃ n deadline', (own now c deadline).serve now deps = (n, own now (c + n) deadline') ∧
      n ≤ deps.length ∧ (∀ i d, i < n → deps[i]? = some d → (c + i : Int) < d.requests) ∧
      (∀ d, deps[n]? = some d → d.requests ≤ (c + n : Int)) ∧
      (n = deps.length → deadline' =
        (deps.getLast?.map fun d => now + 2 * d.windowSeconds * 1000).getD deadline) := by
  induction deps generalizing c deadline with
  | nil => exact ⟨0, deadline, rfl, Nat.le_refl _, by simp, by simp, by simp⟩
  | cons d ds ih =>
    rw [serve, hit_own d.window_pos]
    by_cases hfull : d.requests ≤ c
    · rw [if_pos hfull]
      exact ⟨0, deadline, rfl, Nat.zero_le _, by simp, by simpa using hfull, by simp⟩
    · rw [if_neg hfull]
      obtain ⟨n, deadline', hserve, hle, hpassed, hstopped, hlast⟩ :=
        ih (c + 1) (now + 2 * d.windowSeconds * 1000)
      refine ⟨n + 1, deadline', ?_, by simpa using hle, ?_, ?_, ?_⟩
      · simp only [hserve]
        rw [Nat.add_assoc, Nat.add_comm 1 n]
      · intro i d' hi hd'
        cases i with
        | zero =>
          obtain rfl : d = d' := by simpa using hd'
          push_cast
          omega
        | succ i =>
          have := hpassed i d' (by omega) (by simpa using hd')
          push_cast at this ⊢
          omega
      · intro d' hd'
        have := hstopped d' (by simpa using hd')
        push_cast at this ⊢
        omega
      · intro hall
        rw [hlast (by simpa using hall), List.getLast?_cons]
        cases ds.getLast? <;> rfl

/-- A request that finds nothing left in the first window passes, if the limits leave room for its
own scores. -/
theorem serve_fresh (d₀ : Limit) {rest : List Limit} (b : Bag) (now : Int)
    (hold : ∀ score ∈ b.scores, score ≤ now - d₀.windowSeconds * 1000)
    (hroom : ∀ (k : ℕ) (d : Limit), rest[k]? = some d → (k : Int) + 1 < d.requests) :
    b.serve now (d₀ :: rest) = (rest.length + 1, own now (rest.length + 1)
      ((rest.getLast?.map fun d => now + 2 * d.windowSeconds * 1000).getD
        (now + 2 * d₀.windowSeconds * 1000))) := by
  rw [serve, hit_of_old d₀.requests_pos hold]
  obtain ⟨n, deadline', hserve, hle, -, hstopped, hlast⟩ := serve_own rest now 1
    (now + 2 * d₀.windowSeconds * 1000)
  have hall : n = rest.length := by
    refine le_antisymm hle ?_
    by_contra hlt
    have hlt : n < rest.length := by omega
    have h₁ := hroom n rest[n] (List.getElem?_eq_getElem hlt)
    have h₂ := hstopped rest[n] (List.getElem?_eq_getElem hlt)
    push_cast at h₂
    omega
  simp only [hserve, hlast hall, hall, Nat.add_comm 1]

theorem serveAll_snoc (deps : List Limit) (times : List Int) (now : Int) (b : Bag) :
    b.serveAll deps (times ++ [now]) =
      ((b.serveAll deps times).1 ++
          [(now, (((b.serveAll deps times).2.purge now).serve now deps).1)],
        (((b.serveAll deps times).2.purge now).serve now deps).2) := by
  simp [serveAll]

theorem purge_scores_le (b : Bag) (now : Int) : (b.purge now).scores ≤ b.scores := by
  unfold purge
  split_ifs
  · exact Multiset.zero_le _
  · exact le_refl _

end Bag

/-! ## Lists that are not enforced -/

section necessity

/-- Every run of requests from an empty key enforces the limits. -/
def AlwaysEnforced (deps : List Limit) : Prop :=
  ∀ times : List Int, (0 :: times).Pairwise (· ≤ ·) →
    Enforced deps (Bag.empty.serveAll deps times).1

variable {deps : List Limit}

theorem Enforced.passed_le {trace : List (Int × ℕ)} (h : Enforced deps trace) {k : ℕ} {d : Limit}
    (hd : deps[k]? = some d) (a : Int) :
    (trace.countP fun e => k < e.2 ∧ a ≤ e.1 ∧ e.1 < a + d.windowSeconds * 1000 : Int) ≤
      d.requests :=
  (h k d hd).1 a

theorem Enforced.rejected_le {past future : List (Int × ℕ)} {now : Int} {k : ℕ} {d : Limit}
    (h : Enforced deps (past ++ (now, k) :: future)) (hd : deps[k]? = some d) :
    d.requests ≤ (past.countP fun e => k < e.2 ∧ now - d.windowSeconds * 1000 < e.1 : Int) :=
  (h k d hd).2 past now future rfl

/-- The first request passes every limit. -/
theorem first_passes (h : AlwaysEnforced deps) (k : ℕ) (d : Limit) (hd : deps[k]? = some d) :
    (k : Int) < d.requests := by
  obtain ⟨n, deadline', hserve, hle, hpassed, -, -⟩ := Bag.serve_own deps 0 0 0
  have hrun := h [0] (by simp)
  have hempty : Bag.empty.purge 0 = Bag.own 0 0 0 := rfl
  have htrace : (Bag.empty.serveAll deps [0]).1 = [] ++ [(0, n)] := by
    simp [Bag.serveAll, hempty, hserve]
  rw [htrace] at hrun
  by_cases hk : k < n
  · simpa using hpassed k d hk hd
  · -- A limit that is stopped at has admitted nothing yet.
    have hlt : n < deps.length := by
      have := (List.getElem?_eq_some_iff.mp hd).1
      omega
    have hrejected := hrun.rejected_le (List.getElem?_eq_getElem hlt)
    have := deps[n].requests_pos
    simp only [List.countP_nil] at hrejected
    omega

/-- As long as requests that come at the same time are enforced, each of them passes all limits if
the first limit admits two. -/
theorem simultaneous_pass {d₀ : Limit} {rest : List Limit} (hrest : rest ≠ [])
    (h : AlwaysEnforced (d₀ :: rest)) (htwo : 2 ≤ d₀.requests) (j : ℕ) :
    ∃ deadline, Bag.empty.serveAll (d₀ :: rest) (List.replicate j 0) =
        (List.replicate j (0, rest.length + 1),
          Bag.own 0 ((rest.length + 1) * j) deadline) ∧
      (0 < j → 0 < deadline ∧ ∀ (k : ℕ) (d : Limit), (d₀ :: rest)[k]? = some d →
        ((rest.length + 1) * (j - 1) + k : ℕ) < d.requests) := by
  induction j with
  | zero => exact ⟨0, rfl, by simp⟩
  | succ j ih =>
    obtain ⟨deadline, hrun, hpassed⟩ := ih
    have hpurge : (Bag.own 0 ((rest.length + 1) * j) deadline).purge 0 =
        Bag.own 0 ((rest.length + 1) * j) deadline := by
      rcases Nat.eq_zero_or_pos j with rfl | hj
      · simp [Bag.own, Bag.purge]
      · exact if_neg (by have := (hpassed hj).1; simp only [Bag.own]; omega)
    obtain ⟨n, deadline', hserve, hle, hpassed', -, hlast⟩ :=
      Bag.serve_own (d₀ :: rest) 0 ((rest.length + 1) * j) deadline
    have hnext := Bag.serveAll_snoc (d₀ :: rest) (List.replicate j 0) 0 Bag.empty
    rw [hrun, hpurge, hserve, ← List.replicate_succ'] at hnext
    dsimp only at hnext
    have hall : n = rest.length + 1 := by
      by_contra hne
      have hlt : n < (d₀ :: rest).length := by simp at hle ⊢; omega
      have henforced := h (List.replicate (j + 1) 0) (by simp [List.pairwise_cons])
      rw [hnext] at henforced
      have hrejected : (d₀ :: rest)[n].requests ≤ j :=
        (henforced.rejected_le (List.getElem?_eq_getElem hlt)).trans
          (Int.ofNat_le.mpr (List.countP_le_length.trans_eq List.length_replicate))
      have hlimit := (d₀ :: rest)[n].requests_pos
      have hj : 0 < j := by omega
      have hlast := (hpassed hj).2 n _ (List.getElem?_eq_getElem hlt)
      have hmul : 2 * (j - 1) ≤ (rest.length + 1) * (j - 1) :=
        Nat.mul_le_mul_right _ (by have := List.length_pos_iff.mpr hrest; omega)
      -- The request before passed this limit, so only the second one at the first limit is left.
      obtain rfl : n = 0 := by omega
      simp only [List.getElem_cons_zero] at hrejected hlast
      omega
    subst hall
    refine ⟨deadline', ?_, fun _ => ⟨?_, fun k d hd => ?_⟩⟩
    · rw [hnext, List.replicate_succ', Nat.mul_succ]
    · have hlast' := hlast rfl
      obtain ⟨d, hd⟩ := Option.isSome_iff_exists.mp
        (List.getLast?_isSome.mpr (List.cons_ne_nil d₀ rest))
      rw [hd] at hlast'
      have := d.window_pos
      simp only [Option.map_some, Option.getD_some] at hlast'
      omega
    · have hk := (List.getElem?_eq_some_iff.mp hd).1
      have := hpassed' k d (by simpa using hk) hd
      rw [Nat.add_sub_cancel]
      push_cast at this ⊢
      exact this

/-- With two or more limits, the first one admits a single request. -/
theorem first_limit_one {d₀ : Limit} {rest : List Limit} (hrest : rest ≠ [])
    (h : AlwaysEnforced (d₀ :: rest)) : d₀.requests = 1 := by
  by_contra hne
  have hlimit := d₀.requests_pos
  obtain ⟨deadline, -, hpassed⟩ :=
    simultaneous_pass hrest h (by omega) (d₀.requests.toNat + 1)
  have hlast := (hpassed (Nat.succ_pos _)).2 0 d₀ rfl
  have hmul : 1 * d₀.requests.toNat ≤ (rest.length + 1) * d₀.requests.toNat :=
    Nat.mul_le_mul_right _ (by omega)
  rw [Nat.add_sub_cancel] at hlast
  omega

/-- The first `m` multiples of a span of time. -/
def multiples (span : Int) (m : ℕ) : List Int := (List.range m).map fun i : ℕ => (i : Int) * span

theorem multiples_succ (span : Int) (m : ℕ) :
    multiples span (m + 1) = multiples span m ++ [(m : Int) * span] := by
  rw [multiples, List.range_succ, List.map_append]
  rfl

theorem multiples_sorted (span : Int) (hspan : 0 ≤ span) (m : ℕ) :
    (0 :: multiples span m).Pairwise (· ≤ ·) := by
  rw [List.pairwise_cons]
  refine ⟨fun t ht => ?_, List.Pairwise.map _ (fun i j hij => ?_) List.pairwise_lt_range⟩
  · obtain ⟨i, -, rfl⟩ := List.mem_map.mp ht
    positivity
  · exact Int.mul_le_mul_of_nonneg_right (by omega) hspan

/-- Requests that come a whole first window apart all pass. -/
theorem spaced_pass {d₀ : Limit} {rest : List Limit}
    (hroom : ∀ (k : ℕ) (d : Limit), rest[k]? = some d → (k : Int) + 1 < d.requests) (m : ℕ) :
    (Bag.empty.serveAll (d₀ :: rest) (multiples (d₀.windowSeconds * 1000) m)).1 =
        (multiples (d₀.windowSeconds * 1000) m).map (·, rest.length + 1) ∧
      ∀ score ∈ (Bag.empty.serveAll (d₀ :: rest) (multiples (d₀.windowSeconds * 1000) m)).2.scores,
        score ≤ (m : Int) * (d₀.windowSeconds * 1000) - d₀.windowSeconds * 1000 := by
  induction m with
  | zero => exact ⟨rfl, by simp [multiples, Bag.serveAll, Bag.empty]⟩
  | succ m ih =>
    obtain ⟨htrace, hold⟩ := ih
    have hfresh := Bag.serve_fresh d₀
      ((Bag.empty.serveAll (d₀ :: rest) (multiples (d₀.windowSeconds * 1000) m)).2.purge
        ((m : Int) * (d₀.windowSeconds * 1000))) (m * (d₀.windowSeconds * 1000))
      (fun score hscore => hold score (Multiset.mem_of_le (Bag.purge_scores_le _ _) hscore)) hroom
    rw [multiples_succ, Bag.serveAll_snoc, hfresh, htrace]
    refine ⟨by simp, fun score hscore => ?_⟩
    rw [Multiset.eq_of_mem_replicate hscore]
    push_cast
    linarith

/-- So a later limit's window is at most as many first windows as it admits requests. -/
theorem later_window_le {d₀ : Limit} {rest : List Limit}
    (hroom : ∀ (k : ℕ) (d : Limit), rest[k]? = some d → (k : Int) + 1 < d.requests)
    (h : AlwaysEnforced (d₀ :: rest)) {k : ℕ} {d : Limit} (hd : rest[k]? = some d) :
    d.windowSeconds ≤ d.requests * d₀.windowSeconds := by
  by_contra hlong
  have hwindow := d₀.window_pos
  have hlimit := d.requests_pos
  have henforced := h _ (multiples_sorted (d₀.windowSeconds * 1000) (by omega)
    (d.requests.toNat + 1))
  rw [(spaced_pass hroom _).1] at henforced
  have hcount := henforced.passed_le (k := k + 1) hd 0
  rw [List.countP_eq_length.mpr, List.length_map, multiples, List.length_map,
    List.length_range] at hcount
  · omega
  · intro e he
    obtain ⟨t, ht, rfl⟩ := List.mem_map.mp he
    obtain ⟨i, hi, rfl⟩ := List.mem_map.mp ht
    have hk := (List.getElem?_eq_some_iff.mp hd).1
    have hi' : (i : Int) ≤ d.requests := by have := List.mem_range.mp hi; omega
    have hmul : (i : Int) * d₀.windowSeconds ≤ d.requests * d₀.windowSeconds :=
      Int.mul_le_mul_of_nonneg_right hi' hwindow.le
    have hnonneg : 0 ≤ (i : Int) * (d₀.windowSeconds * 1000) := by positivity
    simp only [decide_eq_true_eq]
    refine ⟨by omega, hnonneg, ?_⟩
    linarith

/-- And the expiry that the last limit sets comes no earlier than the first window ends. -/
theorem first_window_le {d₀ : Limit} {rest : List Limit} (hone : d₀.requests = 1)
    (hroom : ∀ (k : ℕ) (d : Limit), rest[k]? = some d → (k : Int) + 1 < d.requests)
    (h : AlwaysEnforced (d₀ :: rest)) {d : Limit} (hd : rest.getLast? = some d) :
    d₀.windowSeconds ≤ 2 * d.windowSeconds := by
  by_contra hlong
  have hwindow := d.window_pos
  have hfirst := Bag.serve_fresh d₀ (Bag.empty.purge 0) 0
    (by simp [Bag.empty, Bag.purge]) hroom
  rw [hd, Option.map_some, Option.getD_some] at hfirst
  have hgone : ((Bag.own 0 (rest.length + 1) (0 + 2 * d.windowSeconds * 1000)).purge
      (2 * d.windowSeconds * 1000)) =
      ⟨0, 0 + 2 * d.windowSeconds * 1000⟩ := if_pos (by simp only [Bag.own]; omega)
  have hsecond := Bag.serve_fresh d₀ ⟨0, 0 + 2 * d.windowSeconds * 1000⟩
    (2 * d.windowSeconds * 1000) (by simp) hroom
  have htrace : (Bag.empty.serveAll (d₀ :: rest) [0, 2 * d.windowSeconds * 1000]).1 =
      [(0, rest.length + 1), (2 * d.windowSeconds * 1000, rest.length + 1)] := by
    simp only [Bag.serveAll, List.foldl_cons, List.foldl_nil, hfirst, hgone, hsecond]
    rfl
  have henforced := h [0, 2 * d.windowSeconds * 1000] (by simp; omega)
  rw [htrace] at henforced
  have hcount := henforced.passed_le (k := 0) rfl 0
  rw [List.countP_eq_length.mpr] at hcount
  · simp only [List.length_cons, List.length_nil] at hcount
    omega
  · intro e he
    simp only [List.mem_cons, List.not_mem_nil, or_false] at he
    simp only [decide_eq_true_eq]
    rcases he with rfl | rfl
    · exact ⟨Nat.succ_pos _, le_refl _, by dsimp only; omega⟩
    · exact ⟨Nat.succ_pos _, by dsimp only; omega, by dsimp only; omega⟩

theorem compatible_of_enforced (h : AlwaysEnforced deps) : Compatible deps := by
  match deps, h with
  | [], _ => trivial
  | [_], _ => trivial
  | d₀ :: d₁ :: rest, h =>
    have hone := first_limit_one (by simp) h
    have hroom : ∀ (k : ℕ) (d : Limit), (d₁ :: rest)[k]? = some d → (k : Int) + 1 < d.requests := by
      intro k d hd
      have := first_passes h (k + 1) d hd
      push_cast at this
      exact this
    exact ⟨hone, fun k d hd => ⟨hroom k d hd, later_window_le hroom h hd⟩,
      fun d hd => first_window_le hone hroom h hd⟩

end necessity

/-! ## Lists that are enforced -/

section sufficiency

/-- The times at which requests passed at least one limit. -/
def passTimes (trace : List (Int × ℕ)) : List Int := (trace.filter fun e => 0 < e.2).map (·.1)

@[simp] theorem passTimes_rejected (trace : List (Int × ℕ)) (now : Int) :
    passTimes (trace ++ [(now, 0)]) = passTimes trace := by
  simp [passTimes]

@[simp] theorem passTimes_passed (trace : List (Int × ℕ)) (now : Int) (n : ℕ) :
    passTimes (trace ++ [(now, n + 1)]) = passTimes trace ++ [now] := by
  simp [passTimes]

theorem countP_passTimes (trace : List (Int × ℕ)) (P : Int → Bool) :
    (passTimes trace).countP P = trace.countP fun e => decide (0 < e.2) && P e.1 := by
  rw [passTimes, List.countP_map, List.countP_filter]
  simp only [Function.comp_apply, Bool.and_comm]

/-- What one more request must satisfy. -/
theorem Enforced.snoc {deps : List Limit} {trace : List (Int × ℕ)} {now : Int} {n : ℕ}
    (h : Enforced deps trace)
    (hpass : ∀ k d, deps[k]? = some d → k < n →
      ∀ a : Int, a ≤ now → now < a + d.windowSeconds * 1000 →
        (trace.countP fun e => k < e.2 ∧ a ≤ e.1 ∧ e.1 < a + d.windowSeconds * 1000 : Int) <
          d.requests)
    (hreject : ∀ d, deps[n]? = some d →
      d.requests ≤ (trace.countP fun e => n < e.2 ∧ now - d.windowSeconds * 1000 < e.1 : Int)) :
    Enforced deps (trace ++ [(now, n)]) := by
  intro k d hd
  refine ⟨fun a => ?_, fun past t future hsplit => ?_⟩
  · rw [List.countP_append, List.countP_singleton]
    split_ifs with hin
    · simp only [decide_eq_true_eq] at hin
      have := hpass k d hd hin.1 a hin.2.1 hin.2.2
      push_cast
      omega
    · simpa using h.passed_le hd a
  · rcases snoc_eq_append_cons hsplit with ⟨rfl, heq⟩ | ⟨future', rfl⟩
    · obtain ⟨rfl, rfl⟩ := Prod.mk.inj heq
      exact hreject d hd
    · exact h.rejected_le hd

theorem enforced_nil {deps : List Limit} : Enforced deps [] := by
  intro k d hd
  have := d.requests_pos
  exact ⟨fun a => by simpa using this.le, fun past now future hsplit => by simp at hsplit⟩

/-- What every request keeps, at a time no earlier than the one before, holds after every run. -/
theorem serveAll_induction {deps : List Limit} {I : List (Int × ℕ) → Bag → Int → Prop}
    (hinit : I [] .empty 0)
    (hstep : ∀ trace b now now', I trace b now → now ≤ now' →
      I (trace ++ [(now', ((b.purge now').serve now' deps).1)])
        ((b.purge now').serve now' deps).2 now')
    {times : List Int} (hsorted : (0 :: times).Pairwise (· ≤ ·)) :
    ∃ now ∈ 0 :: times,
      I (Bag.empty.serveAll deps times).1 (Bag.empty.serveAll deps times).2 now := by
  induction times using List.reverseRecOn with
  | nil => exact ⟨0, by simp, hinit⟩
  | append_singleton times now' ih =>
    rw [← List.cons_append, List.pairwise_append] at hsorted
    obtain ⟨hbefore, -, hle⟩ := hsorted
    obtain ⟨now, hnow, hI⟩ := ih hbefore
    rw [Bag.serveAll_snoc]
    exact ⟨now', by simp, hstep _ _ now now' hI (hle now hnow now' (by simp))⟩

/-! ### One limit -/

/-- The bag of a single limit knows the passes of its window. -/
structure Sliding (windowSeconds : Int) (trace : List (Int × ℕ)) (b : Bag) (now : Int) : Prop where
  count : ∀ cut ≥ now - windowSeconds * 1000,
    (b.scores.filter (cut < ·)).card = (passTimes trace).countP (cut < ·)
  deadline : b.scores ≠ 0 → ∀ t ∈ passTimes trace, t + 2 * windowSeconds * 1000 ≤ b.deadline
  past : ∀ t ∈ passTimes trace, t ≤ now

variable {trace : List (Int × ℕ)} {b : Bag} {now : Int}

theorem Sliding.purge {windowSeconds : Int} (hwindow : 0 < windowSeconds)
    (h : Sliding windowSeconds trace b now) {now' : Int} (hle : now ≤ now') :
    Sliding windowSeconds trace (b.purge now') now' := by
  have hpast : ∀ t ∈ passTimes trace, t ≤ now' := fun t ht => (h.past t ht).trans hle
  unfold Bag.purge
  split_ifs with hdue
  · refine ⟨fun cut hcut => ?_, by simp, hpast⟩
    rw [Multiset.filter_zero, Multiset.card_zero, eq_comm]
    by_cases hempty : b.scores = 0
    · have hcount := h.count cut (by omega)
      rw [hempty] at hcount
      exact hcount.symm
    · refine List.countP_eq_zero.mpr fun t ht => ?_
      have := h.deadline hempty t ht
      simp only [decide_eq_true_eq]
      omega
  · exact ⟨fun cut hcut => h.count cut (by omega), h.deadline, hpast⟩

/-- What is live is what passed in the window that ends now. -/
theorem Sliding.card_live {windowSeconds : Int} (h : Sliding windowSeconds trace b now) :
    ((b.live windowSeconds now).card : Int) =
      trace.countP fun e => 0 < e.2 ∧ now - windowSeconds * 1000 < e.1 := by
  have hcard : (b.live windowSeconds now).card =
      (passTimes trace).countP (now - windowSeconds * 1000 < ·) := h.count _ le_rfl
  rw [hcard, countP_passTimes]
  simp only [Bool.decide_and]

theorem Sliding.count_live {windowSeconds : Int} (h : Sliding windowSeconds trace b now) {cut : Int}
    (hcut : now - windowSeconds * 1000 ≤ cut) :
    ((b.live windowSeconds now).filter (cut < ·)).card = (passTimes trace).countP (cut < ·) := by
  have hfilter : (b.live windowSeconds now).filter (cut < ·) = b.scores.filter (cut < ·) := by
    rw [Bag.live, Multiset.filter_filter]
    exact Multiset.filter_congr fun score _ => by omega
  rw [hfilter]
  exact h.count cut hcut

theorem Sliding.reject {windowSeconds : Int} (h : Sliding windowSeconds trace b now) :
    Sliding windowSeconds (trace ++ [(now, 0)]) { b with scores := b.live windowSeconds now }
      now := by
  refine ⟨fun cut hcut => ?_, fun hne => ?_, ?_⟩
  · rw [passTimes_rejected]
    exact h.count_live hcut
  · rw [passTimes_rejected]
    exact h.deadline fun hnil => hne (by simp [Bag.live, hnil])
  · rw [passTimes_rejected]
    exact h.past

theorem Sliding.pass {windowSeconds : Int} (h : Sliding windowSeconds trace b now) :
    Sliding windowSeconds (trace ++ [(now, 1)])
      ⟨now ::ₘ b.live windowSeconds now, now + 2 * windowSeconds * 1000⟩ now := by
  have hpast : ∀ t ∈ passTimes (trace ++ [(now, 0 + 1)]), t ≤ now := by
    rw [passTimes_passed, List.forall_mem_append]
    exact ⟨h.past, by simp⟩
  refine ⟨fun cut hcut => ?_, fun _ t ht => ?_, hpast⟩
  · rw [passTimes_passed, List.countP_append, Multiset.filter_cons, Multiset.card_add,
      h.count_live hcut]
    by_cases hlate : cut < now <;> simp [hlate, Nat.add_comm]
  · have hle := hpast t ht
    dsimp only
    omega

/-- One request: it passes exactly if the window has room, and the bag stays the window. -/
theorem Sliding.serve {d : Limit} (h : Sliding d.windowSeconds trace b now)
    (henforced : Enforced [d] trace) :
    Sliding d.windowSeconds (trace ++ [(now, (b.serve now [d]).1)]) (b.serve now [d]).2 now ∧
      Enforced [d] (trace ++ [(now, (b.serve now [d]).1)]) := by
  have hindex : ∀ {k : ℕ} {d' : Limit}, [d][k]? = some d' → k = 0 ∧ d' = d := by
    intro k d' hd
    cases k with
    | zero => exact ⟨rfl, by simpa using hd.symm⟩
    | succ k => simp at hd
  have hlive := h.card_live
  simp only [Bag.serve, Bag.hit]
  split_ifs with hfull
  · refine ⟨h.reject, henforced.snoc (by simp) fun d' hd' => ?_⟩
    rw [(hindex hd').2, ← hlive]
    exact hfull
  · refine ⟨h.pass, henforced.snoc ?_ ?_⟩
    · intro k d' hd' hk a ha hend
      obtain ⟨rfl, rfl⟩ := hindex hd'
      have hsub : (trace.countP fun e => 0 < e.2 ∧ a ≤ e.1 ∧ e.1 < a + d'.windowSeconds * 1000) ≤
          trace.countP fun e => 0 < e.2 ∧ now - d'.windowSeconds * 1000 < e.1 := by
        apply List.countP_mono_left
        intro e _ he
        simp only [decide_eq_true_eq] at he ⊢
        exact ⟨he.1, by omega⟩
      omega
    · intro d' hd'
      exact absurd (hindex hd').1 (Nat.succ_ne_zero 0)

theorem enforced_single {d : Limit} {times : List Int}
    (hsorted : (0 :: times).Pairwise (· ≤ ·)) :
    Enforced [d] (Bag.empty.serveAll [d] times).1 := by
  obtain ⟨now, -, -, henforced⟩ := serveAll_induction
    (I := fun trace b now => Sliding d.windowSeconds trace b now ∧ Enforced [d] trace)
    ⟨⟨by simp [Bag.empty, passTimes], by simp [Bag.empty], by simp [passTimes]⟩,
      enforced_nil⟩
    (fun trace b now now' h hle => (h.1.purge d.window_pos hle).serve h.2) hsorted
  exact henforced

/-! ### Several limits -/

/-- Times that are at least `gap` apart are at most `m` in a span of `m` gaps. -/
theorem length_le_of_spaced {gap : Int} {l : List Int} (hspaced : l.Pairwise fun x y => x + gap ≤ y)
    (m : ℕ) {a : Int} (hspan : ∀ x ∈ l, a ≤ x ∧ x < a + m * gap) : l.length ≤ m := by
  induction l generalizing a m with
  | nil => exact Nat.zero_le _
  | cons x xs ih =>
    obtain ⟨hlo, hhi⟩ := hspan x (by simp)
    obtain ⟨hfirst, hrest⟩ := List.pairwise_cons.mp hspaced
    cases m with
    | zero => simp at hhi; omega
    | succ m =>
      refine Nat.succ_le_succ (ih hrest m (a := a + gap) fun y hy => ?_)
      have hgap := hfirst y hy
      have hy' := (hspan y (List.mem_cons_of_mem _ hy)).2
      push_cast at hy'
      exact ⟨by omega, by linarith⟩

/-- With compatible limits a request passes all of them or is stopped by the first; the passes
are a first window apart, and what is stored is the last of them, until it has expired. -/
structure Spaced (d₀ : Limit) (n : ℕ) (trace : List (Int × ℕ)) (b : Bag) (now : Int) : Prop where
  spaced : (passTimes trace).Pairwise fun x y => x + d₀.windowSeconds * 1000 ≤ y
  holds : ((∀ score ∈ b.scores, score ≤ now - d₀.windowSeconds * 1000) ∧
      ∀ t ∈ passTimes trace, t + d₀.windowSeconds * 1000 ≤ now) ∨
    ∃ τ ∈ passTimes trace, (∀ t ∈ passTimes trace, t ≤ τ) ∧ τ ≤ now ∧
      ∃ deadline, b = .own τ n deadline ∧ τ + d₀.windowSeconds * 1000 ≤ deadline

theorem Spaced.purge {d₀ : Limit} {n : ℕ} (h : Spaced d₀ n trace b now) {now' : Int}
    (hle : now ≤ now') : Spaced d₀ n trace (b.purge now') now' := by
  refine ⟨h.spaced, ?_⟩
  rcases h.holds with ⟨hold, hpast⟩ | ⟨τ, hτ, hlast, hnow, deadline, rfl, hlong⟩
  · refine Or.inl ⟨fun score hscore => ?_, fun t ht => ?_⟩
    · have := hold score (Multiset.mem_of_le (Bag.purge_scores_le b now') hscore)
      omega
    · have := hpast t ht
      omega
  · unfold Bag.purge
    split_ifs with hdue
    · refine Or.inl ⟨by simp, fun t ht => ?_⟩
      have := hlast t ht
      simp only [Bag.own] at hdue
      omega
    · exact Or.inr ⟨τ, hτ, hlast, hnow.trans hle, deadline, rfl, hlong⟩

/-- Spaced passes keep every limit whose window is at most its requests times the first. -/
theorem countP_lt_of_spaced {d₀ d : Limit} {k : ℕ} {a : Int}
    (hspaced : (passTimes trace ++ [now]).Pairwise fun x y => x + d₀.windowSeconds * 1000 ≤ y)
    (hlong : d.windowSeconds ≤ d.requests * d₀.windowSeconds) (ha : a ≤ now)
    (hend : now < a + d.windowSeconds * 1000) :
    (trace.countP fun e => k < e.2 ∧ a ≤ e.1 ∧ e.1 < a + d.windowSeconds * 1000 : Int) <
      d.requests := by
  have hrequests := d.requests_pos
  have hspan := length_le_of_spaced (hspaced.filter fun x => decide (a ≤ x ∧
    x < a + d.windowSeconds * 1000)) d.requests.toNat (a := a) fun x hx => by
      have hx := of_decide_eq_true (List.mem_filter.mp hx).2
      rw [Int.toNat_of_nonneg hrequests.le]
      exact ⟨hx.1, by linarith⟩
  rw [← List.countP_eq_length_filter, List.countP_append, List.countP_singleton,
    if_pos (decide_eq_true ⟨ha, hend⟩), countP_passTimes] at hspan
  have hsub : (trace.countP fun e => k < e.2 ∧ a ≤ e.1 ∧ e.1 < a + d.windowSeconds * 1000) ≤
      trace.countP fun e => decide (0 < e.2) &&
        decide (a ≤ e.1 ∧ e.1 < a + d.windowSeconds * 1000) := by
    apply List.countP_mono_left
    intro e _ he
    simp only [decide_eq_true_eq, Bool.and_eq_true] at he ⊢
    exact ⟨by omega, he.2⟩
  omega

/-- The first window is over: the request passes all limits. -/
theorem Spaced.pass {d₀ : Limit} {rest : List Limit} (hone : d₀.requests = 1)
    (hlater : ∀ (k : ℕ) (d : Limit), rest[k]? = some d →
      (k : Int) + 1 < d.requests ∧ d.windowSeconds ≤ d.requests * d₀.windowSeconds)
    (hexpiry : ∀ d : Limit, rest.getLast? = some d → d₀.windowSeconds ≤ 2 * d.windowSeconds)
    (h : Spaced d₀ (rest.length + 1) trace b now) (henforced : Enforced (d₀ :: rest) trace)
    (hold : ∀ score ∈ b.scores, score ≤ now - d₀.windowSeconds * 1000)
    (hpast : ∀ t ∈ passTimes trace, t + d₀.windowSeconds * 1000 ≤ now) :
    Spaced d₀ (rest.length + 1) (trace ++ [(now, (b.serve now (d₀ :: rest)).1)])
        (b.serve now (d₀ :: rest)).2 now ∧
      Enforced (d₀ :: rest) (trace ++ [(now, (b.serve now (d₀ :: rest)).1)]) := by
  have hwindow := d₀.window_pos
  rw [Bag.serve_fresh d₀ b now hold fun k d hd => (hlater k d hd).1]
  have hspaced : (passTimes trace ++ [now]).Pairwise
      fun x y => x + d₀.windowSeconds * 1000 ≤ y := by
    rw [List.pairwise_append]
    refine ⟨h.spaced, by simp, fun t ht y hy => ?_⟩
    rw [List.mem_singleton.mp hy]
    exact hpast t ht
  refine ⟨⟨by rwa [passTimes_passed], Or.inr ⟨now, ?_, ?_, le_refl _, _, rfl, ?_⟩⟩,
    henforced.snoc ?_ ?_⟩
  · simp
  · rw [passTimes_passed, List.forall_mem_append]
    refine ⟨fun t ht => ?_, by simp⟩
    have := hpast t ht
    omega
  · cases hlast : rest.getLast? with
    | none => simp only [Option.map_none, Option.getD_none]; omega
    | some d =>
      have := hexpiry d hlast
      simp only [Option.map_some, Option.getD_some]
      omega
  · intro k d hd hk a ha hend
    have hlong : d.windowSeconds ≤ d.requests * d₀.windowSeconds := by
      cases k with
      | zero =>
        obtain rfl : d₀ = d := by simpa using hd
        rw [hone]
        omega
      | succ k => exact (hlater k d (by simpa using hd)).2
    exact countP_lt_of_spaced hspaced hlong ha hend
  · intro d hd
    simp at hd

/-- The last pass is still in the first window, which it fills. -/
theorem Spaced.reject {d₀ : Limit} {rest : List Limit} (hone : d₀.requests = 1)
    (h : Spaced d₀ (rest.length + 1) trace b now) (henforced : Enforced (d₀ :: rest) trace)
    (hnot : ¬ ((∀ score ∈ b.scores, score ≤ now - d₀.windowSeconds * 1000) ∧
      ∀ t ∈ passTimes trace, t + d₀.windowSeconds * 1000 ≤ now)) :
    Spaced d₀ (rest.length + 1) (trace ++ [(now, (b.serve now (d₀ :: rest)).1)])
        (b.serve now (d₀ :: rest)).2 now ∧
      Enforced (d₀ :: rest) (trace ++ [(now, (b.serve now (d₀ :: rest)).1)]) := by
  obtain ⟨τ, hτ, hlast, hnow, deadline, rfl, hlong⟩ := h.holds.resolve_left hnot
  have hinside : now - d₀.windowSeconds * 1000 < τ := by
    by_contra hover
    refine hnot ⟨fun score hscore => ?_, fun t ht => ?_⟩
    · rw [Multiset.eq_of_mem_replicate hscore]
      omega
    · have := hlast t ht
      omega
  have hlive : (Bag.own τ (rest.length + 1) deadline).live d₀.windowSeconds now =
      Multiset.replicate (rest.length + 1) τ :=
    Multiset.filter_eq_self.mpr fun score hscore => by
      rw [Multiset.eq_of_mem_replicate hscore]
      exact hinside
  have hserve : (Bag.own τ (rest.length + 1) deadline).serve now (d₀ :: rest) =
      (0, .own τ (rest.length + 1) deadline) := by
    rw [Bag.serve, Bag.hit, hlive, Multiset.card_replicate, hone, if_pos (by omega)]
    rfl
  rw [hserve]
  refine ⟨⟨by rw [passTimes_rejected]; exact h.spaced, Or.inr ?_⟩,
    henforced.snoc (by simp) fun d hd => ?_⟩
  · rw [passTimes_rejected]
    exact ⟨τ, hτ, hlast, hnow, deadline, rfl, hlong⟩
  · obtain rfl : d₀ = d := by simpa using hd
    have hpositive : 0 < (passTimes trace).countP
        fun t => decide (now - d₀.windowSeconds * 1000 < t) :=
      List.countP_pos_iff.mpr ⟨τ, hτ, decide_eq_true hinside⟩
    rw [countP_passTimes] at hpositive
    simp only [Bool.decide_and]
    omega

/-- One request through compatible limits. -/
theorem Spaced.serve {d₀ : Limit} {rest : List Limit} (hone : d₀.requests = 1)
    (hlater : ∀ (k : ℕ) (d : Limit), rest[k]? = some d →
      (k : Int) + 1 < d.requests ∧ d.windowSeconds ≤ d.requests * d₀.windowSeconds)
    (hexpiry : ∀ d : Limit, rest.getLast? = some d → d₀.windowSeconds ≤ 2 * d.windowSeconds)
    (h : Spaced d₀ (rest.length + 1) trace b now) (henforced : Enforced (d₀ :: rest) trace) :
    Spaced d₀ (rest.length + 1) (trace ++ [(now, (b.serve now (d₀ :: rest)).1)])
        (b.serve now (d₀ :: rest)).2 now ∧
      Enforced (d₀ :: rest) (trace ++ [(now, (b.serve now (d₀ :: rest)).1)]) := by
  by_cases hready : (∀ score ∈ b.scores, score ≤ now - d₀.windowSeconds * 1000) ∧
      ∀ t ∈ passTimes trace, t + d₀.windowSeconds * 1000 ≤ now
  · exact h.pass hone hlater hexpiry henforced hready.1 hready.2
  · exact h.reject hone henforced hready

theorem enforced_of_compatible {deps : List Limit} (h : Compatible deps) :
    AlwaysEnforced deps := by
  intro times hsorted
  match deps, h with
  | [], _ => exact fun k d hd => by simp at hd
  | [d], _ => exact enforced_single hsorted
  | d₀ :: d₁ :: rest, ⟨hone, hlater, hexpiry⟩ =>
    obtain ⟨now, -, -, henforced⟩ := serveAll_induction
      (I := fun trace b now => Spaced d₀ ((d₁ :: rest).length + 1) trace b now ∧
        Enforced (d₀ :: d₁ :: rest) trace)
      ⟨⟨by simp [passTimes], Or.inl ⟨by simp [Bag.empty], by simp [passTimes]⟩⟩,
        enforced_nil⟩
      (fun trace b now now' h hle =>
        (h.1.purge hle).serve hone hlater hexpiry h.2) hsorted
    exact henforced

end sufficiency

/-- The limits stacked on a route are enforced, each by itself, in every sequential run of one
client's requests, if and only if they are compatible. -/
theorem enforced_iff_compatible {digest : String → String} {config : RateLimitConfig}
    {request : Request M} {ip : String} (henabled : config.rateLimitEnabled = true)
    (hinit : initRateLimiter config (some (redisStore config)) = .ok request.store)
    (hclient : truthy (getClientIp request config config.rateLimitTrustProxyHeaders) = some ip)
    {deps : List Limit} :
    (∀ times : List Int, (0 :: times).Pairwise (· ≤ ·) →
      Enforced deps (serveAll digest config request deps times (.empty 0)).1) ↔
        Compatible deps := by
  have hstore : request.store = some (redisStore config) := by
    simpa [initRateLimiter, henabled] using hinit.symm
  have htrace : ∀ times : List Int, (0 :: times).Pairwise (· ≤ ·) →
      (serveAll digest config request deps times (.empty 0)).1 =
        (Bag.empty.serveAll deps times).1 := fun times hsorted =>
    (serveAll_spec henabled hstore hclient (List.pairwise_cons.mp hsorted).1
      (stored_of_missing rfl rfl)).1
  constructor
  · intro h
    exact compatible_of_enforced fun times hsorted => htrace times hsorted ▸ h times hsorted
  · intro h times hsorted
    rw [htrace times hsorted]
    exact enforced_of_compatible h times hsorted

def sampleRequest : Request M where
  method := "GET"
  routePath := some "/items"
  urlPath := "/items"
  client := some "10.0.0.1"
  headers _ := none
  store := some (redisStore sampleConfig)

/-- One request in a minute, and three in two minutes. -/
def spacedLimits : List Limit := [⟨1, 60, by decide, by decide⟩, ⟨3, 120, by decide, by decide⟩]

theorem spacedLimits_compatible : Compatible spacedLimits := by
  refine ⟨rfl, fun k d hd => ?_, fun d hd => ?_⟩
  · cases k with
    | zero =>
      cases hd
      decide
    | succ => cases hd
  · cases hd
    decide

/-- A request passes as soon as the minute of the one before it is over. -/
theorem enforced_iff_compatible_spaced :
    (serveAll id sampleConfig sampleRequest spacedLimits [0, 0, 59000, 60001, 120002]
      (.empty 0)).1 = [(0, 2), (0, 0), (59000, 0), (60001, 2), (120002, 2)] ∧
    Enforced spacedLimits (serveAll id sampleConfig sampleRequest spacedLimits
      [0, 0, 59000, 60001, 120002] (.empty 0)).1 :=
  ⟨rfl, (enforced_iff_compatible rfl rfl rfl).mpr spacedLimits_compatible _ (by decide)⟩

/-- Two requests in ten seconds, and a hundred in an hour. -/
def burstAndSustained : List Limit :=
  [⟨2, 10, by decide, by decide⟩, ⟨100, 3600, by decide, by decide⟩]

/-- Of two simultaneous requests the second is rejected by the burst limit, which has admitted
only one. -/
theorem burst_not_enforced : ¬ Enforced burstAndSustained
    (serveAll id sampleConfig sampleRequest burstAndSustained [0, 0] (.empty 0)).1 := by
  intro h
  have htrace : (serveAll id sampleConfig sampleRequest burstAndSustained [0, 0]
      (.empty 0)).1 = [(0, 2)] ++ (0, 0) :: [] := rfl
  rw [htrace] at h
  exact absurd (h.rejected_le rfl) (by decide)

end BaseWebService.RateLimit
