import BaseWebService.RateLimit.Accounting

/-!
# When the reset comes

`X-RateLimit-Reset` is put together from two readings of the clock: the seconds still to wait are
counted from the first one and rounded up, then added to the second one, whose part of a second
is cut off. `reset_never_early_iff` says which of the two wins.
-/

namespace BaseWebService.RateLimit

open Library Redis RedisSlidingWindowRateLimiter

/-- Every clock reading of call `i`, oldest first. -/
def clockReads (i : ℕ) (h : HitHistory) : List Int := h.filterMap fun x => readBy i x.label

/-- The oldest score a step shows to call `i`. -/
def shownBy (i : ℕ) : HitLabel → Option (Option Int)
  | .issue j (.zrange _ _ _) entries => if j = i then some (redisOldestScore entries) else none
  | _ => none

def oldestShown (i : ℕ) (h : HitHistory) : List (Option Int) :=
  h.filterMap fun x => shownBy i x.label

/-- Call `i` has last read the clock as `nowMs`. -/
def LastRead (i : ℕ) (h : HitHistory) (nowMs : Int) : Prop :=
  ∃ earlier, clockReads i h = earlier ++ [nowMs]

/-- Call `i` has last been shown `oldestScore`. -/
def LastShown (i : ℕ) (h : HitHistory) (oldestScore : Option Int) : Prop :=
  ∃ earlier, oldestShown i h = earlier ++ [oldestScore]

/-- Call `i` has read the clock as `nowMs` for its last attempt and as `later` for its result. -/
def ReadTwice (i : ℕ) (h : HitHistory) (nowMs later : Int) : Prop :=
  ∃ earlier, clockReads i h = earlier ++ [nowMs, later]

/-- The oldest entry of a call: the first request counts itself. -/
def oldestEntry (exceeded : Bool) (nowMs : Int) (oldestScore : Option Int) : Option Int :=
  if exceeded then oldestScore else some (oldestScore.getD nowMs)

section history
variable {i : ℕ} {h : HitHistory} {x : Transition ZServer HitLabel}

theorem clockReads_snoc :
    clockReads i (h ++ [x]) = clockReads i h ++ (readBy i x.label).toList := by
  simp only [clockReads, List.filterMap_append, List.filterMap_cons, List.filterMap_nil]
  cases readBy i x.label <;> rfl

theorem oldestShown_snoc :
    oldestShown i (h ++ [x]) = oldestShown i h ++ (shownBy i x.label).toList := by
  simp only [oldestShown, List.filterMap_append, List.filterMap_cons, List.filterMap_nil]
  cases shownBy i x.label <;> rfl

theorem shownBy_of_proc_ne {l : HitLabel} (hl : l.proc ≠ some i) : shownBy i l = none := by
  unfold shownBy
  split
  · simpa [Pool.Label.proc] using hl
  · rfl

end history

/-- What call `i` knows at each of its points. -/
def Timed (windowSeconds : Int) (i : ℕ) (h : HitHistory) : Point → Prop
  | .clock _ _ => True
  | .trim _ _ nowMs => LastRead i h nowMs
  | .watch _ _ nowMs => LastRead i h nowMs
  | .card _ _ nowMs _ => LastRead i h nowMs
  | .oldest _ _ nowMs _ _ => LastRead i h nowMs
  | .commit _ _ nowMs _ _ oldestScore => LastRead i h nowMs ∧ LastShown i h oldestScore
  | .exceeded nowMs _ oldestScore => LastRead i h nowMs ∧ LastShown i h oldestScore
  | .admitted nowMs _ oldestScore => LastRead i h nowMs ∧ LastShown i h oldestScore
  | .done result => ∃ nowMs later oldestScore, ReadTwice i h nowMs later ∧
      LastShown i h oldestScore ∧ result.resetAt = later / 1000 + redisResetAfterSeconds
        (oldestEntry result.exceeded nowMs oldestScore) nowMs (windowSeconds * 1000)
  | .failed _ => True

section invariant
variable {config : RateLimitConfig} {key : String} {limit windowSeconds : Int} {i : ℕ}
  {h : HitHistory} {x : Transition ZServer HitLabel}

/-- A step that tells call `i` nothing. -/
theorem Timed.quiet {q : Point} (hq : Timed windowSeconds i h q) (hread : readBy i x.label = none)
    (hshown : shownBy i x.label = none) : Timed windowSeconds i (h ++ [x]) q := by
  have hreads : clockReads i (h ++ [x]) = clockReads i h := by
    rw [clockReads_snoc, hread]
    exact List.append_nil _
  have hseen : oldestShown i (h ++ [x]) = oldestShown i h := by
    rw [oldestShown_snoc, hshown]
    exact List.append_nil _
  cases q with
  | clock | failed => trivial
  | trim | watch | card | oldest | commit | exceeded | admitted | done =>
    simpa only [Timed, LastRead, ReadTwice, LastShown, hreads, hseen] using hq

theorem lastRead_snoc {nowMs : Int} (hread : readBy i x.label = some nowMs) :
    LastRead i (h ++ [x]) nowMs := by
  refine ⟨clockReads i h, ?_⟩
  rw [clockReads_snoc, hread]
  rfl

theorem LastRead.quiet {nowMs : Int} (hnow : LastRead i h nowMs)
    (hread : readBy i x.label = none) : LastRead i (h ++ [x]) nowMs := by
  obtain ⟨earlier, hearlier⟩ := hnow
  refine ⟨earlier, ?_⟩
  rw [clockReads_snoc, hread, hearlier]
  exact List.append_nil _

theorem LastRead.twice {nowMs later : Int} (hnow : LastRead i h nowMs)
    (hread : readBy i x.label = some later) : ReadTwice i (h ++ [x]) nowMs later := by
  obtain ⟨earlier, hearlier⟩ := hnow
  refine ⟨earlier, ?_⟩
  rw [clockReads_snoc, hearlier, hread, List.append_assoc]
  rfl

theorem LastShown.quiet {oldestScore : Option Int} (hlast : LastShown i h oldestScore)
    (hshown : shownBy i x.label = none) : LastShown i (h ++ [x]) oldestScore := by
  obtain ⟨earlier, hearlier⟩ := hlast
  refine ⟨earlier, ?_⟩
  rw [oldestShown_snoc, hshown, hearlier]
  exact List.append_nil _

theorem lastShown_snoc {oldestScore : Option Int} (hshown : shownBy i x.label = some oldestScore) :
    LastShown i (h ++ [x]) oldestScore := by
  refine ⟨oldestShown i h, ?_⟩
  rw [oldestShown_snoc, hshown]
  rfl

theorem timed_enter (attempt left : ℕ) : Timed windowSeconds i h (.enter attempt left) := by
  cases left <;> trivial

theorem timed_retry (attempt left : ℕ) : Timed windowSeconds i h (.retry config attempt left) := by
  unfold Point.retry
  split_ifs
  · trivial
  · exact timed_enter _ _

theorem timed_entry : Timed windowSeconds i h (.entry config limit windowSeconds) := by
  unfold Point.entry
  split_ifs
  · trivial
  · trivial
  · exact timed_enter _ _

/-- What a command tells the call that has issued it. -/
theorem timed_issue {q : Point} {c : ZCmd} {next : c.Reply → Point}
    (hflow : hitFlow config key limit windowSeconds q = .call c next)
    (hq : Timed windowSeconds i h q) (s : ZServer) : Timed windowSeconds i
      (h ++ [⟨s, .issue i c (ZServer.exec c s).1, (ZServer.exec c s).2⟩])
      (next (ZServer.exec c s).1) := by
  cases q with
  | clock attempt left =>
    obtain ⟨rfl, hnext⟩ := Node.call.inj hflow
    obtain rfl := eq_of_heq hnext
    exact lastRead_snoc (if_pos rfl)
  | trim attempt left nowMs | watch attempt left nowMs | card attempt left nowMs version =>
    obtain ⟨rfl, hnext⟩ := Node.call.inj hflow
    obtain rfl := eq_of_heq hnext
    exact Timed.quiet hq rfl rfl
  | oldest attempt left nowMs version count =>
    obtain ⟨rfl, hnext⟩ := Node.call.inj hflow
    obtain rfl := eq_of_heq hnext
    dsimp only
    split_ifs
    · exact ⟨LastRead.quiet hq rfl, lastShown_snoc (if_pos rfl)⟩
    · exact ⟨LastRead.quiet hq rfl, lastShown_snoc (if_pos rfl)⟩
  | commit attempt left nowMs version count oldestScore =>
    obtain ⟨rfl, hnext⟩ := Node.call.inj hflow
    obtain rfl := eq_of_heq hnext
    dsimp only
    split_ifs
    · exact Timed.quiet (q := .admitted nowMs count oldestScore) hq rfl rfl
    · exact timed_retry attempt left
  | exceeded nowMs count oldestScore =>
    obtain ⟨rfl, hnext⟩ := Node.call.inj hflow
    obtain rfl := eq_of_heq hnext
    exact ⟨nowMs, s.now, oldestScore, hq.1.twice (if_pos rfl), hq.2.quiet rfl, rfl⟩
  | admitted nowMs count oldestScore =>
    obtain ⟨rfl, hnext⟩ := Node.call.inj hflow
    obtain rfl := eq_of_heq hnext
    exact ⟨nowMs, s.now, oldestScore, hq.1.twice (if_pos rfl), hq.2.quiet rfl, rfl⟩
  | done | failed => cases hflow

/-- The steps of others tell call `i` nothing. -/
theorem Timed.frame {q : Point} (hq : Timed windowSeconds i h q) (hx : x.label.proc ≠ some i) :
    Timed windowSeconds i (h ++ [x]) q :=
  hq.quiet (readBy_of_proc_ne hx) (shownBy_of_proc_ne hx)

theorem timed_keeps : Pool.Keeps ZServer.exec ZServer.Passes
    (hitFlow config key limit windowSeconds) (.entry config limit windowSeconds)
    (fun _ _ => True) fun i h _ q => Timed windowSeconds i h q where
  start _ _ _ _ _ := ⟨trivial, timed_entry⟩
  issue _ s _ _ _ _ hflow _ hq := ⟨trivial, timed_issue hflow hq s⟩
  passes _ _ _ _ _ := trivial
  frame _ _ _ _ _ hq := by
    refine ⟨fun i hij => hq.frame ?_, fun i q' c next hij _ _ => hq.frame ?_,
      fun t _ => hq.frame ?_⟩
    · exact fun heq => hij (Option.some.inj heq)
    · exact fun heq => hij (Option.some.inj heq)
    · exact Option.some_ne_none _ ∘ Eq.symm

/-- How the reset of a call that has returned was put together. -/
theorem resetAt_eq {s : ZServer} {p : HitPool} {tr : List (Transition HitPool HitLabel)}
    (hrun : Run (HitStep config key limit windowSeconds) (Pool.fresh s) tr p)
    {result : RateLimitResult} (hret : p.procs i = some (.ret result)) :
    ∃ nowMs later oldestScore, ReadTwice i (Pool.history tr) nowMs later ∧
      LastShown i (Pool.history tr) oldestScore ∧
      result.resetAt = later / 1000 + redisResetAfterSeconds
        (oldestEntry result.exceeded nowMs oldestScore) nowMs (windowSeconds * 1000) := by
  have hold := Pool.invariant (hit_follows config key limit windowSeconds) timed_keeps hrun trivial
  obtain ⟨q, hfollows, hq⟩ := hold.point i _ hret
  obtain rfl := eq_done_of_ret hfollows
  exact hq

end invariant

/-! ## Two roundings -/

/-- What the second reading loses of its second is made up for by the time since the first reading
and by what rounding up has added. -/
def Compensated (windowSeconds nowMs later score : Int) : Prop :=
  later % 1000 ≤ later - nowMs +
    max ((nowMs - (score + windowSeconds * 1000)) % 1000) (nowMs - (score + windowSeconds * 1000))

theorem reset_iff (windowSeconds nowMs later score : Int) :
    score + windowSeconds * 1000 ≤ (later / 1000 +
      redisResetAfterSeconds (some score) nowMs (windowSeconds * 1000)) * 1000 ↔
    Compensated windowSeconds nowMs later score := by
  unfold Compensated redisResetAfterSeconds ceilSeconds
  dsimp only
  omega

/-- The reset of a call is no earlier than the time its oldest entry leaves the window if and only
if the roundings make up for each other; then whoever waits for it finds the entry gone. -/
theorem reset_never_early_iff {config : RateLimitConfig} {key : String} {limit windowSeconds : Int}
    {s : ZServer} {p : HitPool} {tr : List (Transition HitPool HitLabel)}
    (hrun : Run (HitStep config key limit windowSeconds) (Pool.fresh s) tr p) {i : ℕ}
    {result : RateLimitResult} (hret : p.procs i = some (.ret result)) :
    ∃ nowMs later oldestScore, ReadTwice i (Pool.history tr) nowMs later ∧
      LastShown i (Pool.history tr) oldestScore ∧
      ∀ score, oldestEntry result.exceeded nowMs oldestScore = some score →
        (score + windowSeconds * 1000 ≤ result.resetAt * 1000 ↔
          Compensated windowSeconds nowMs later score) ∧
        (Compensated windowSeconds nowMs later score → 0 ≤ score →
          ∀ (k : ZKey) (id : ℕ) (time : Int), result.resetAt * 1000 ≤ time →
            (id, score) ∉ (k.trim 0 (time - windowSeconds * 1000)).members) := by
  obtain ⟨nowMs, later, oldestScore, hread, hshown, hreset⟩ := resetAt_eq hrun hret
  refine ⟨nowMs, later, oldestScore, hread, hshown, fun score hscore => ?_⟩
  have hiff : score + windowSeconds * 1000 ≤ result.resetAt * 1000 ↔
      Compensated windowSeconds nowMs later score := by
    rw [hreset, hscore]
    exact reset_iff windowSeconds nowMs later score
  refine ⟨hiff, fun hcompensated hnonneg k id time htime hmem => ?_⟩
  have hlate := hiff.mpr hcompensated
  obtain ⟨-, hkept⟩ := ZKey.mem_trim.mp hmem
  exact hkept ⟨hnonneg, by omega⟩

/-! ## Two first requests -/

/-- A first request at `now`, left alone, is a run. -/
theorem exists_first_hit {windowSeconds now : Int} {result : RateLimitResult} {t : ZServer}
    (hsolo : (hit sampleConfig "key" 2 windowSeconds).run ZServer.exec (.empty now) =
      (.ok result, t)) : ∃ tr p,
      Run (HitStep sampleConfig "key" 2 windowSeconds) (Pool.fresh (.empty now)) tr p ∧
      p.procs 0 = some (.ret result) ∧ p.store = t := by
  let started : HitPool := ⟨.empty now,
    Function.update (fun _ => none) 0 (some (hit sampleConfig "key" 2 windowSeconds))⟩
  have hstart : HitStep sampleConfig "key" 2 windowSeconds (Pool.fresh (.empty now)) (.start 0)
      started := .start rfl
  have hready : started.procs 0 = some (hit sampleConfig "key" 2 windowSeconds) := rfl
  obtain ⟨tr, hrun, -⟩ : ∃ tr, Run (HitStep sampleConfig "key" 2 windowSeconds) started tr _ ∧
      Pool.started (Pool.history tr) = [] := Pool.exists_solo_run hready hsolo
  exact ⟨_, _, hrun.cons hstart, by simp, rfl⟩

/-- On a whole second nothing is cut off. -/
theorem reset_never_early_iff_whole : ∃ tr p,
    Run (HitStep sampleConfig "key" 2 60) (Pool.fresh (.empty 1000)) tr p ∧
    p.procs 0 = some (.ret ⟨2, 60, 0, 1, 61, false⟩) ∧
    ∃ nowMs later oldestScore, ReadTwice 0 (Pool.history tr) nowMs later ∧
      oldestEntry false nowMs oldestScore = some (oldestScore.getD nowMs) ∧
      (oldestScore.getD nowMs + 60000 ≤ 61000 ↔
        Compensated 60 nowMs later (oldestScore.getD nowMs)) := by
  obtain ⟨t, hsolo⟩ : ∃ t, (hit sampleConfig "key" 2 60).run ZServer.exec (.empty 1000) =
      (.ok ⟨2, 60, 0, 1, 61, false⟩, t) := ⟨_, rfl⟩
  obtain ⟨tr, p, hrun, hret, -⟩ := exists_first_hit hsolo
  obtain ⟨nowMs, later, oldestScore, hread, -, hall⟩ := reset_never_early_iff hrun hret
  exact ⟨tr, p, hrun, hret, nowMs, later, oldestScore, hread, rfl, (hall _ rfl).1⟩

/-- At the end of a second the reset comes up to a second early: the entry is still in the set
then. -/
theorem reset_early : ∃ tr p,
    Run (HitStep sampleConfig "key" 2 1) (Pool.fresh (.empty 1999)) tr p ∧
    p.procs 0 = some (.ret ⟨2, 1, 0, 1, 2, false⟩) ∧ p.store.now = 1999 ∧
    (p.store.keys "key").members = [(0, 1999)] ∧ ¬ (1999 : Int) + 1 * 1000 ≤ 2 * 1000 ∧
    (((p.store.advance 2000).keys "key").trim 0 (2000 - 1 * 1000)).members = [(0, 1999)] := by
  obtain ⟨t, hsolo, hnow, hmembers, hstill⟩ : ∃ t,
      (hit sampleConfig "key" 2 1).run ZServer.exec (.empty 1999) =
        (.ok ⟨2, 1, 0, 1, 2, false⟩, t) ∧ t.now = 1999 ∧ (t.keys "key").members = [(0, 1999)] ∧
      (((t.advance 2000).keys "key").trim 0 (2000 - 1 * 1000)).members = [(0, 1999)] :=
    ⟨_, rfl, rfl, rfl, rfl⟩
  obtain ⟨tr, p, hrun, hret, rfl⟩ := exists_first_hit hsolo
  exact ⟨tr, p, hrun, hret, hnow, hmembers, by decide, hstill⟩

end BaseWebService.RateLimit
