import BaseWebService.RateLimit.Flow

/-!
# Interleaved calls of `hit`

Any number of processes call `hit` on one key, and every Redis command is a step of its
own. `Shared` is what holds of the key at all times, `Local` what holds of a call at each of
its points; `hit_keeps` checks both against every step. The results about admission counts
and about windows are read off them.
-/

namespace BaseWebService.RateLimit

open Library Redis RedisSlidingWindowRateLimiter

abbrev HitPool := Pool ZCmd ZCmd.Reply Error RateLimitResult ZServer
abbrev HitLabel := Pool.Label ZCmd ZCmd.Reply
abbrev HitHistory := Pool.History ZCmd ZCmd.Reply ZServer

/-- One step of the pool of `hit` calls. -/
def HitStep (config : RateLimitConfig) (key : String) (limit windowSeconds : Int) :
    HitPool → HitLabel → HitPool → Prop :=
  Pool.Step ZServer.exec (hit config key limit windowSeconds) ZServer.Passes

/-! ## What a call has done so far -/

/-- Every attempt starts by trimming the set. -/
def isAttempt (i : ℕ) : HitLabel → Bool
  | .issue j (.zremrangebyscore _ _ _) _ => j == i
  | _ => false

/-- A transaction that was applied. -/
def isExec : HitLabel → Bool
  | .issue _ (.execute _ _ _) applied => applied
  | _ => false

def attempts (i : ℕ) (h : HitHistory) : ℕ := h.countP fun x => isAttempt i x.label

/-- The members of the key that one step adds. -/
def newMembers (key : String) (x : Transition ZServer HitLabel) : ℕ :=
  ((x.after.keys key).members.filter fun m => m ∉ (x.before.keys key).members).length

/-- The members that the steps of call `i` have added. -/
def added (key : String) (i : ℕ) (h : HitHistory) : ℕ :=
  ((h.filter fun x => x.label.proc = some i).map (newMembers key)).sum

/-- The clock reading a step hands to call `i`. -/
def readBy (i : ℕ) : HitLabel → Option Int
  | .issue j .time now => if j = i then some now else none
  | _ => none

/-- What call `i` read when it last read the clock. -/
def clockRead (i : ℕ) (h : HitHistory) : Option Int :=
  h.foldl (fun acc x => (readBy i x.label).or acc) none

section snoc

variable {key : String} {i : ℕ} {h : HitHistory} {x : Transition ZServer HitLabel}

theorem attempts_snoc : attempts i (h ++ [x]) = attempts i h + (isAttempt i x.label).toNat := by
  cases hx : isAttempt i x.label <;> simp [attempts, hx]

theorem added_snoc : added key i (h ++ [x]) =
    added key i h + if x.label.proc = some i then newMembers key x else 0 := by
  by_cases hx : x.label.proc = some i <;> simp [added, hx]

theorem clockRead_snoc : clockRead i (h ++ [x]) = (readBy i x.label).or (clockRead i h) := by
  simp [clockRead]

theorem isAttempt_of_proc_ne {l : HitLabel} (hl : l.proc ≠ some i) : isAttempt i l = false := by
  unfold isAttempt
  split
  · simpa [Pool.Label.proc] using hl
  · rfl

theorem readBy_of_proc_ne {l : HitLabel} (hl : l.proc ≠ some i) : readBy i l = none := by
  unfold readBy
  split
  · simpa [Pool.Label.proc] using hl
  · rfl

/-- The steps of others do not count. -/
theorem others_snoc (key : String) (hx : x.label.proc ≠ some i) :
    attempts i (h ++ [x]) = attempts i h ∧ added key i (h ++ [x]) = added key i h ∧
      clockRead i (h ++ [x]) = clockRead i h := by
  refine ⟨?_, ?_, ?_⟩
  · rw [attempts_snoc, isAttempt_of_proc_ne hx]
    rfl
  · rw [added_snoc, if_neg hx, Nat.add_zero]
  · rw [clockRead_snoc, readBy_of_proc_ne hx]
    rfl

end snoc

/-- Losing members adds none. -/
theorem newMembers_of_shrinks {key : String} {x : Transition ZServer HitLabel}
    (h : (x.before.keys key).Shrinks (x.after.keys key)) : newMembers key x = 0 := by
  simp only [newMembers, List.length_eq_zero_iff, List.filter_eq_nil_iff, decide_not,
    Bool.not_eq_true', decide_eq_false_iff_not, not_not]
  exact fun m hm => h.sublist.subset hm

/-- A transaction adds one member if the member it draws is new. -/
theorem newMembers_of_admits {key : String} {x : Transition ZServer HitLabel} {m : Member}
    {deadline : Int} (h : (x.before.keys key).Admits (x.after.keys key) m deadline)
    (hnew : m ∉ (x.before.keys key).members) : newMembers key x = 1 := by
  have hnone : (x.before.keys key).members.filter (fun m => m ∉ (x.before.keys key).members) = [] :=
    List.filter_eq_nil_iff.mpr fun m hm => by simpa using hm
  rw [newMembers, (h.perm.filter _).length_eq, List.filter_cons_of_pos (by simpa using hnew), hnone]
  rfl

/-! ## The invariant -/

section invariant

variable (config : RateLimitConfig) (key : String) (limit windowSeconds : Int)

/-- What has become of the member an applied transaction added: it is still in the set, or its
score has left the window, or the expiry set with it has lapsed. -/
def Accounted (s : ZServer) (past : HitHistory) (x : Transition ZServer HitLabel) : Prop :=
  ∃ i score, x.label.proc = some i ∧ clockRead i past = some score ∧
    ((x.before.nextUuid, score) ∈ (s.keys key).members ∨ score ≤ s.now - windowSeconds * 1000 ∨
      x.before.now + 2 * windowSeconds * 1000 ≤ s.now)

/-- What holds of the key at all times. -/
structure Shared (h : HitHistory) (s : ZServer) : Prop where
  card_le : ((s.keys key).members.length : Int) ≤ limit
  drawn : ∀ m ∈ (s.keys key).members, m.1 < s.nextUuid
  past : ∀ x ∈ h, isExec x.label = true → x.before.nextUuid < s.nextUuid ∧ x.before.now ≤ s.now
  distinct : ((h.filter fun x => isExec x.label).map (·.before.nextUuid)).Nodup
  deadline : ∀ x ∈ h, isExec x.label = true → (s.keys key).members ≠ [] →
    ∃ d, (s.keys key).deadline = some d ∧ x.before.now + 2 * windowSeconds * 1000 ≤ d
  accounted : ∀ past x future, h = past ++ x :: future → isExec x.label = true →
    Accounted key windowSeconds s past x

/-- The attempts call `i` has made and the members it has added. -/
def Made (i : ℕ) (h : HitHistory) (n k : ℕ) : Prop := attempts i h = n ∧ added key i h = k

/-- Call `i` has last read the clock as `nowMs`. -/
def HasRead (i : ℕ) (h : HitHistory) (s : ZServer) (nowMs : Int) : Prop :=
  clockRead i h = some nowMs ∧ nowMs ≤ s.now

/-- The count read after `version` was handed out is right as long as the version stands. -/
def Counted (s : ZServer) (version count : ℕ) : Prop :=
  version ≤ (s.keys key).version ∧
    ((s.keys key).version = version → (s.keys key).members.length = count)

/-- A transaction of call `i` left `n` members. -/
def LeftMembers (i : ℕ) (h : HitHistory) (n : ℕ) : Prop :=
  ∃ x ∈ h, x.label.proc = some i ∧ isExec x.label = true ∧ (x.after.keys key).members.length = n

def maxAttempts : ℕ := (max config.rateLimitWatchRetries 1).toNat

/-- Call `i` has made no more attempts than it may, and has added `k` members. -/
def Spent (i : ℕ) (h : HitHistory) (k : ℕ) : Prop := ∃ n ≤ maxAttempts config, Made key i h n k

/-- What holds of call `i` at each of its points. -/
def Local (i : ℕ) (h : HitHistory) (s : ZServer) : Point → Prop
  | .clock attempt left => attempt + left + 1 = maxAttempts config ∧ Made key i h attempt 0
  | .trim attempt left nowMs =>
    attempt + left + 1 = maxAttempts config ∧ Made key i h attempt 0 ∧ HasRead i h s nowMs
  | .watch attempt left nowMs =>
    attempt + left + 1 = maxAttempts config ∧ Made key i h (attempt + 1) 0 ∧ HasRead i h s nowMs
  | .card attempt left nowMs version =>
    attempt + left + 1 = maxAttempts config ∧ Made key i h (attempt + 1) 0 ∧ HasRead i h s nowMs ∧
      version ≤ (s.keys key).version
  | .oldest attempt left nowMs version count =>
    attempt + left + 1 = maxAttempts config ∧ Made key i h (attempt + 1) 0 ∧ HasRead i h s nowMs ∧
      Counted key s version count
  | .commit attempt left nowMs version count _ =>
    attempt + left + 1 = maxAttempts config ∧ Made key i h (attempt + 1) 0 ∧ HasRead i h s nowMs ∧
      Counted key s version count ∧ (count : Int) < limit
  | .exceeded _ _ _ => Spent config key i h 0
  | .admitted _ count _ =>
    Spent config key i h 1 ∧ (count : Int) < limit ∧ LeftMembers key i h (count + 1)
  | .done result =>
    if result.exceeded then Spent config key i h 0
    else Spent config key i h 1 ∧ ∃ n, LeftMembers key i h n ∧ result.remaining = limit - n
  | .failed e => Spent config key i h 0 ∧ ∀ message, e ≠ .runtimeError message

end invariant

/-! ## Steps of others -/

section frame

variable {config : RateLimitConfig} {key : String} {limit windowSeconds : Int} {i : ℕ}
  {h : HitHistory} {x : Transition ZServer HitLabel}

theorem Made.frame {n k : ℕ} (hmade : Made key i h n k) (hx : x.label.proc ≠ some i) :
    Made key i (h ++ [x]) n k := by
  obtain ⟨hattempts, hadded, -⟩ := others_snoc (h := h) key hx
  exact ⟨hattempts.trans hmade.1, hadded.trans hmade.2⟩

theorem Spent.frame {k : ℕ} (hspent : Spent config key i h k) (hx : x.label.proc ≠ some i) :
    Spent config key i (h ++ [x]) k := by
  obtain ⟨n, hn, hmade⟩ := hspent
  exact ⟨n, hn, hmade.frame hx⟩

theorem HasRead.frame {nowMs : Int} (hread : HasRead i h x.before nowMs)
    (hx : x.label.proc ≠ some i) (hchange : ZServer.Change key x.before x.after) :
    HasRead i (h ++ [x]) x.after nowMs :=
  ⟨(others_snoc key hx).2.2.trans hread.1, hread.2.trans hchange.now_le⟩

/-- A count stays right, or its version is gone for good. -/
theorem Counted.frame {s t : ZServer} {version count : ℕ} (hcount : Counted key s version count)
    (hchange : ZServer.Change key s t) : Counted key t version count := by
  refine ⟨hcount.1.trans hchange.version_le, fun hversion => ?_⟩
  have hsame : (s.keys key).version = version :=
    le_antisymm (hversion ▸ hchange.version_le) hcount.1
  rw [hchange.same (hversion.trans hsame.symm)]
  exact hcount.2 hsame

theorem LeftMembers.append {n : ℕ} (h' : LeftMembers key i h n) (more : HitHistory) :
    LeftMembers key i (h ++ more) n := by
  obtain ⟨x, hx, hlabel⟩ := h'
  exact ⟨x, List.mem_append_left _ hx, hlabel⟩

/-- No point is disturbed by the steps of others. -/
theorem Local.frame {q : Point} (hlocal : Local config key limit i h x.before q)
    (hx : x.label.proc ≠ some i) (hchange : ZServer.Change key x.before x.after) :
    Local config key limit i (h ++ [x]) x.after q := by
  cases q with
  | clock => exact ⟨hlocal.1, hlocal.2.frame hx⟩
  | trim | watch =>
    obtain ⟨hbudget, hmade, hread⟩ := hlocal
    exact ⟨hbudget, hmade.frame hx, hread.frame hx hchange⟩
  | card =>
    obtain ⟨hbudget, hmade, hread, hversion⟩ := hlocal
    exact ⟨hbudget, hmade.frame hx, hread.frame hx hchange, hversion.trans hchange.version_le⟩
  | oldest =>
    obtain ⟨hbudget, hmade, hread, hcount⟩ := hlocal
    exact ⟨hbudget, hmade.frame hx, hread.frame hx hchange, hcount.frame hchange⟩
  | commit =>
    obtain ⟨hbudget, hmade, hread, hcount, hroom⟩ := hlocal
    exact ⟨hbudget, hmade.frame hx, hread.frame hx hchange, hcount.frame hchange, hroom⟩
  | exceeded => exact Spent.frame hlocal hx
  | admitted =>
    obtain ⟨hspent, hroom, hleft⟩ := hlocal
    exact ⟨hspent.frame hx, hroom, hleft.append [x]⟩
  | done result =>
    simp only [Local] at hlocal ⊢
    split_ifs at hlocal ⊢
    · exact Spent.frame hlocal hx
    · obtain ⟨hspent, n, hleft, hremaining⟩ := hlocal
      exact ⟨hspent.frame hx, n, hleft.append [x], hremaining⟩
  | failed => exact ⟨hlocal.1.frame hx, hlocal.2⟩

end frame

/-! ## What a step does to the key -/

section shared

variable {key : String} {limit windowSeconds : Int} {i : ℕ} {h : HitHistory}
  {x : Transition ZServer HitLabel}

/-- A step that adds nothing may lose members whose score has left the window, or all of them
when the expiry has lapsed. -/
theorem Shared.shrink (hshared : Shared key limit windowSeconds h x.before)
    (hx : isExec x.label = false) (hnow : x.before.now ≤ x.after.now)
    (huuid : x.after.nextUuid = x.before.nextUuid)
    (hshrinks : (x.before.keys key).Shrinks (x.after.keys key))
    (hlost : ∀ m ∈ (x.before.keys key).members, m ∈ (x.after.keys key).members ∨
      m.2 ≤ x.after.now - windowSeconds * 1000 ∨
      ∃ d, (x.before.keys key).deadline = some d ∧ d ≤ x.after.now) :
    Shared key limit windowSeconds (h ++ [x]) x.after := by
  obtain ⟨hcard, hdrawn, hpast, hdistinct, hdeadline, haccounted⟩ := hshared
  have hold : ∀ y ∈ h ++ [x], isExec y.label = true → y ∈ h := by
    intro y hy hexec
    rcases List.mem_append.mp hy with hy | hy
    · exact hy
    · obtain rfl := List.mem_singleton.mp hy
      rw [hx] at hexec
      contradiction
  refine ⟨?_, ?_, ?_, ?_, ?_, ?_⟩
  · have hle := hshrinks.length_le
    omega
  · intro m hm
    rw [huuid]
    exact hdrawn m (hshrinks.sublist.subset hm)
  · intro y hy hexec
    obtain ⟨hid, htime⟩ := hpast y (hold y hy hexec) hexec
    exact ⟨huuid ▸ hid, htime.trans hnow⟩
  · simpa [hx] using hdistinct
  · intro y hy hexec hne
    obtain ⟨d, hd, hlate⟩ := hdeadline y (hold y hy hexec) hexec fun hnil => hne
      (List.eq_nil_of_subset_nil (hnil ▸ hshrinks.sublist.subset))
    exact ⟨d, (hshrinks.deadline hne).trans hd, hlate⟩
  · intro past y future hsplit hexec
    rcases snoc_eq_append_cons hsplit with ⟨-, rfl⟩ | ⟨future', rfl⟩
    · rw [hx] at hexec
      contradiction
    · obtain ⟨j, score, hproc, hread, hwhere⟩ := haccounted past y future' rfl hexec
      refine ⟨j, score, hproc, hread, ?_⟩
      rcases hwhere with hmem | hwindow | hexpired
      · rcases hlost _ hmem with hkept | hwindow | ⟨d, hd, hdue⟩
        · exact Or.inl hkept
        · exact Or.inr (Or.inl hwindow)
        · obtain ⟨d', hd', hlate⟩ := hdeadline y (by simp) hexec (List.ne_nil_of_mem hmem)
          obtain rfl : d = d' := Option.some.inj (hd.symm.trans hd')
          exact Or.inr (Or.inr (hlate.trans hdue))
      · exact Or.inr (Or.inl (by omega))
      · exact Or.inr (Or.inr (by omega))

/-- An applied transaction adds one member, which was not there before. -/
theorem Shared.commit (hshared : Shared key limit windowSeconds h x.before)
    (hproc : x.label.proc = some i) (hexec : isExec x.label = true) {score d : Int}
    (hread : clockRead i h = some score) (hnow : x.after.now = x.before.now)
    (huuid : x.after.nextUuid = x.before.nextUuid + 1)
    (hadmits : (x.before.keys key).Admits (x.after.keys key) (x.before.nextUuid, score) d)
    (hlate : x.before.now + 2 * windowSeconds * 1000 ≤ d)
    (hroom : ((x.before.keys key).members.length : Int) < limit) :
    Shared key limit windowSeconds (h ++ [x]) x.after := by
  obtain ⟨hcard, hdrawn, hpast, hdistinct, -, haccounted⟩ := hshared
  have htimes : ∀ y ∈ h ++ [x], isExec y.label = true →
      y.before.nextUuid < x.after.nextUuid ∧ y.before.now ≤ x.before.now := by
    intro y hy hexec'
    rcases List.mem_append.mp hy with hy | hy
    · obtain ⟨hid, htime⟩ := hpast y hy hexec'
      exact ⟨by omega, htime⟩
    · obtain rfl := List.mem_singleton.mp hy
      exact ⟨by omega, Int.le_refl _⟩
  have hmembers : ∀ m, m ∈ (x.after.keys key).members ↔
      m = (x.before.nextUuid, score) ∨ m ∈ (x.before.keys key).members := fun m => by
    rw [hadmits.perm.mem_iff, List.mem_cons]
  refine ⟨?_, ?_, ?_, ?_, ?_, ?_⟩
  · rw [hadmits.perm.length_eq, List.length_cons]
    omega
  · intro m hm
    rcases (hmembers m).mp hm with rfl | hm
    · omega
    · have := hdrawn m hm
      omega
  · intro y hy hexec'
    obtain ⟨hid, htime⟩ := htimes y hy hexec'
    exact ⟨hid, hnow ▸ htime⟩
  · rw [List.filter_append, List.map_append, List.nodup_append]
    refine ⟨hdistinct, by simp [hexec], ?_⟩
    intro id hid id' hid'
    obtain ⟨y, hy, rfl⟩ := List.mem_map.mp hid
    obtain ⟨hy, hexec'⟩ := List.mem_filter.mp hy
    obtain rfl : id' = x.before.nextUuid := by simpa [hexec] using hid'
    exact (hpast y hy hexec').1.ne
  · intro y hy hexec' _
    obtain ⟨-, htime⟩ := htimes y hy hexec'
    exact ⟨d, hadmits.deadline, by omega⟩
  · intro past y future hsplit hexec'
    rcases snoc_eq_append_cons hsplit with ⟨rfl, rfl⟩ | ⟨future', rfl⟩
    · exact ⟨i, score, hproc, hread, Or.inl ((hmembers _).mpr (Or.inl rfl))⟩
    · obtain ⟨j, score', hproc', hread', hwhere⟩ := haccounted past y future' rfl hexec'
      refine ⟨j, score', hproc', hread', ?_⟩
      rcases hwhere with hmem | hwindow | hexpired
      · exact Or.inl ((hmembers _).mpr (Or.inr hmem))
      · exact Or.inr (Or.inl (by omega))
      · exact Or.inr (Or.inr (by omega))

theorem Shared.quiet {s : ZServer} {l : HitLabel} (hshared : Shared key limit windowSeconds h s)
    (hl : isExec l = false) : Shared key limit windowSeconds (h ++ [⟨s, l, s⟩]) s :=
  Shared.shrink (x := ⟨s, l, s⟩) hshared hl (Int.le_refl _) rfl (.refl _) fun _ hm => Or.inl hm

end shared

/-! ## Every step keeps the invariant -/

section keeps

variable {config : RateLimitConfig} {key : String} {limit windowSeconds : Int} {i : ℕ}
  {h : HitHistory} {x : Transition ZServer HitLabel}

/-- A call's own step that adds no member. -/
theorem Made.own {n k : ℕ} {trims : Bool} (hmade : Made key i h n k)
    (hshrinks : (x.before.keys key).Shrinks (x.after.keys key))
    (hx : isAttempt i x.label = trims) : Made key i (h ++ [x]) (n + trims.toNat) k := by
  refine ⟨by rw [attempts_snoc, hmade.1, hx], ?_⟩
  rw [added_snoc, newMembers_of_shrinks hshrinks, ite_self, Nat.add_zero]
  exact hmade.2

/-- A call's own step that adds a member. -/
theorem Made.commit {n : ℕ} {m : Member} {deadline : Int} (hmade : Made key i h n 0)
    (hproc : x.label.proc = some i) (hx : isAttempt i x.label = false)
    (hadmits : (x.before.keys key).Admits (x.after.keys key) m deadline)
    (hnew : m ∉ (x.before.keys key).members) : Made key i (h ++ [x]) n 1 := by
  refine ⟨by rw [attempts_snoc, hmade.1, hx]; rfl, ?_⟩
  rw [added_snoc, if_pos hproc, newMembers_of_admits hadmits hnew, hmade.2]

theorem Spent.own {k : ℕ} (hspent : Spent config key i h k)
    (hshrinks : (x.before.keys key).Shrinks (x.after.keys key))
    (hx : isAttempt i x.label = false) : Spent config key i (h ++ [x]) k := by
  obtain ⟨n, hn, hmade⟩ := hspent
  exact ⟨n, hn, hmade.own hshrinks hx⟩

/-- A call's own step that does not read the clock. -/
theorem HasRead.own {nowMs : Int} (hread : HasRead i h x.before nowMs)
    (hx : readBy i x.label = none) (hnow : x.before.now ≤ x.after.now) :
    HasRead i (h ++ [x]) x.after nowMs :=
  ⟨by rw [clockRead_snoc, hx]; exact hread.1, hread.2.trans hnow⟩

theorem ttl_covers (windowSeconds now : Int) :
    now + 2 * windowSeconds * 1000 ≤ now + windowTtlSeconds windowSeconds * 1000 := by
  unfold windowTtlSeconds
  omega

/-- The commands of a call change the key as `Change` says. -/
theorem hitFlow_change {q : Point} {c : ZCmd} {next : c.Reply → Point}
    (hflow : hitFlow config key limit windowSeconds q = .call c next) (s : ZServer) :
    ZServer.Change key s (ZServer.exec c s).2 := by
  cases q with
  | trim =>
    obtain ⟨rfl, -⟩ := Node.call.inj hflow
    exact ZServer.trim_change s key _ _
  | commit attempt left nowMs version count oldestScore =>
    obtain ⟨rfl, -⟩ := Node.call.inj hflow
    simp only [ZServer.exec]
    split_ifs
    · obtain ⟨hnow, huuid, hadmits⟩ :=
        s.admit_spec key nowMs (windowTtlSeconds windowSeconds)
      exact .commit _ _ hnow huuid hadmits
    · exact .refl key s
  | clock | watch | card | oldest | exceeded | admitted =>
    obtain ⟨rfl, -⟩ := Node.call.inj hflow
    exact .refl key s
  | done | failed => cases hflow

/-- The point a call enters the loop at. -/
theorem Local.enter {s : ZServer} {attempt left : ℕ}
    (hbudget : attempt + left = maxAttempts config) (hleft : 0 < left)
    (hmade : Made key i h attempt 0) :
    Local config key limit i h s (.enter attempt left) := by
  cases left with
  | zero => contradiction
  | succ left => exact ⟨by omega, hmade⟩

/-- After a conflict the call gives up exactly when its attempts are used up. -/
theorem Local.retry {s : ZServer} {attempt left : ℕ}
    (hbudget : attempt + left + 1 = maxAttempts config) (hmade : Made key i h (attempt + 1) 0) :
    Local config key limit i h s (.retry config attempt left) := by
  unfold Point.retry
  split_ifs with hlast
  · exact ⟨⟨attempt + 1, by omega, hmade⟩, by simp⟩
  · refine Local.enter (by omega) ?_ hmade
    -- The loop runs `max(retries, 1)` times and the raise test uses `retries` itself.
    unfold maxAttempts at hbudget
    omega

theorem Local.entry {s : ZServer} (hmade : Made key i h 0 0) :
    Local config key limit i h s (.entry config limit windowSeconds) := by
  unfold Point.entry
  split_ifs
  · exact ⟨⟨0, Nat.zero_le _, hmade⟩, by simp⟩
  · exact ⟨⟨0, Nat.zero_le _, hmade⟩, by simp⟩
  · refine Local.enter (by rw [maxAttempts, Nat.zero_add]) ?_ hmade
    omega

theorem made_of_not_started (key : String) (hnone : ∀ x ∈ h, x.label.proc ≠ some i) :
    Made key i h 0 0 := by
  refine ⟨List.countP_eq_zero.mpr fun x hx => ?_, ?_⟩
  · simp [isAttempt_of_proc_ne (hnone x hx)]
  · rw [added, List.filter_eq_nil_iff.mpr fun x hx => by simpa using hnone x hx]
    rfl

/-- The trim of an attempt removes what has left the window. -/
theorem Local.trim {s : ZServer} {attempt left : ℕ} {nowMs : Int}
    (hshared : Shared key limit windowSeconds h s)
    (hlocal : Local config key limit i h s (.trim attempt left nowMs)) :
    let c := ZCmd.zremrangebyscore key 0 (nowMs - windowSeconds * 1000)
    Shared key limit windowSeconds (h ++ [⟨s, .issue i c (), (ZServer.exec c s).2⟩])
        (ZServer.exec c s).2 ∧
      Local config key limit i (h ++ [⟨s, .issue i c (), (ZServer.exec c s).2⟩])
        (ZServer.exec c s).2 (.watch attempt left nowMs) := by
  intro c
  obtain ⟨hbudget, hmade, hread⟩ := hlocal
  have hkey : (ZServer.exec c s).2.keys key =
      (s.keys key).trim 0 (nowMs - windowSeconds * 1000) := ZServer.set_keys_self ..
  have hshrinks := (s.keys key).trim_shrinks 0 (nowMs - windowSeconds * 1000)
  rw [← hkey] at hshrinks
  refine ⟨Shared.shrink hshared rfl (Int.le_refl _) rfl hshrinks fun m hm => ?_, hbudget, ?_,
    hread.own rfl (Int.le_refl _)⟩
  · by_cases hkept : m ∈ ((s.keys key).trim 0 (nowMs - windowSeconds * 1000)).members
    · exact Or.inl (hkey ▸ hkept)
    · have hscore : m.2 ≤ nowMs - windowSeconds * 1000 := by
        by_contra hlarge
        exact hkept (ZKey.mem_trim.mpr ⟨hm, fun hrange => hlarge hrange.2⟩)
      have hclock := hread.2
      exact Or.inr (Or.inl (by simp only [c, ZServer.exec, ZServer.set_now]; omega))
  · exact @Made.own key i h ⟨s, .issue i c (), _⟩ _ _ true hmade hshrinks (beq_self_eq_true i)

/-- The transaction of an attempt. Where the version still stands, the count is the cardinality and
there is room for one more. -/
theorem Local.commit {s : ZServer} {attempt left : ℕ} {nowMs : Int} {version count : ℕ}
    {oldestScore : Option Int} (hshared : Shared key limit windowSeconds h s)
    (hlocal : Local config key limit i h s
      (.commit attempt left nowMs version count oldestScore)) :
    let c := ZCmd.execute key version (admission key windowSeconds nowMs)
    let r : Bool × ZServer := ZServer.exec c s
    Shared key limit windowSeconds (h ++ [⟨s, .issue i c r.1, r.2⟩]) r.2 ∧
      Local config key limit i (h ++ [⟨s, .issue i c r.1, r.2⟩]) r.2
        (if r.1 = true then .admitted nowMs count oldestScore
          else .retry config attempt left) := by
  intro c r
  obtain ⟨hbudget, hmade, hread, hcount, hroom⟩ := hlocal
  by_cases hversion : (s.keys key).version = version
  · obtain ⟨hnow, huuid, hadmits⟩ := s.admit_spec key nowMs (windowTtlSeconds windowSeconds)
    have hcard := hcount.2 hversion
    have hfits : ((s.keys key).members.length : Int) < limit := by omega
    have hnew : (s.nextUuid, nowMs) ∉ (s.keys key).members := fun hm =>
      (hshared.drawn _ hm).ne rfl
    simp only [r, c, ZServer.exec, if_pos hversion]
    refine ⟨Shared.commit (i := i) hshared rfl rfl hread.1 hnow huuid hadmits
      (ttl_covers _ _) hfits, ⟨attempt + 1, by omega, hmade.commit rfl rfl hadmits hnew⟩, hroom,
      ?_⟩
    refine ⟨_, List.mem_append_right _ (List.mem_singleton.mpr rfl), rfl, rfl, ?_⟩
    rw [← hcard]
    exact hadmits.perm.length_eq
  · simp only [r, c, ZServer.exec, if_neg hversion]
    exact ⟨hshared.quiet rfl, Local.retry hbudget (hmade.own (.refl _) rfl)⟩

/-- A call's own command, at each of its points. -/
theorem Local.issue {s : ZServer} {q : Point} {c : ZCmd} {next : c.Reply → Point}
    (hflow : hitFlow config key limit windowSeconds q = .call c next)
    (hshared : Shared key limit windowSeconds h s) (hlocal : Local config key limit i h s q) :
    Shared key limit windowSeconds
        (h ++ [⟨s, .issue i c (ZServer.exec c s).1, (ZServer.exec c s).2⟩]) (ZServer.exec c s).2 ∧
      Local config key limit i (h ++ [⟨s, .issue i c (ZServer.exec c s).1, (ZServer.exec c s).2⟩])
        (ZServer.exec c s).2 (next (ZServer.exec c s).1) := by
  cases q with
  | clock attempt left =>
    obtain ⟨rfl, hnext⟩ := Node.call.inj hflow
    obtain rfl := eq_of_heq hnext
    obtain ⟨hbudget, hmade⟩ := hlocal
    refine ⟨hshared.quiet rfl, hbudget, hmade.own (.refl _) rfl, ?_, Int.le_refl _⟩
    simp [clockRead_snoc, readBy, ZServer.exec]
  | trim attempt left nowMs =>
    obtain ⟨rfl, hnext⟩ := Node.call.inj hflow
    obtain rfl := eq_of_heq hnext
    exact Local.trim hshared hlocal
  | watch attempt left nowMs =>
    obtain ⟨rfl, hnext⟩ := Node.call.inj hflow
    obtain rfl := eq_of_heq hnext
    obtain ⟨hbudget, hmade, hread⟩ := hlocal
    exact ⟨hshared.quiet rfl, hbudget, hmade.own (.refl _) rfl, hread.own rfl (Int.le_refl _),
      Nat.le_refl _⟩
  | card attempt left nowMs version =>
    obtain ⟨rfl, hnext⟩ := Node.call.inj hflow
    obtain rfl := eq_of_heq hnext
    obtain ⟨hbudget, hmade, hread, hversion⟩ := hlocal
    exact ⟨hshared.quiet rfl, hbudget, hmade.own (.refl _) rfl, hread.own rfl (Int.le_refl _),
      hversion, fun _ => rfl⟩
  | oldest attempt left nowMs version count =>
    obtain ⟨rfl, hnext⟩ := Node.call.inj hflow
    obtain rfl := eq_of_heq hnext
    obtain ⟨hbudget, hmade, hread, hcount⟩ := hlocal
    refine ⟨hshared.quiet rfl, ?_⟩
    by_cases hfull : (count : Int) ≥ limit
    · simp only [if_pos hfull]
      exact ⟨attempt + 1, by omega, hmade.own (.refl _) rfl⟩
    · simp only [if_neg hfull]
      exact ⟨hbudget, hmade.own (.refl _) rfl, hread.own rfl (Int.le_refl _), hcount, by omega⟩
  | commit attempt left nowMs version count oldestScore =>
    obtain ⟨rfl, hnext⟩ := Node.call.inj hflow
    obtain rfl := eq_of_heq hnext
    exact Local.commit hshared hlocal
  | exceeded nowMs count oldestScore =>
    obtain ⟨rfl, hnext⟩ := Node.call.inj hflow
    obtain rfl := eq_of_heq hnext
    exact ⟨hshared.quiet rfl, Spent.own hlocal (.refl _) rfl⟩
  | admitted nowMs count oldestScore =>
    obtain ⟨rfl, hnext⟩ := Node.call.inj hflow
    obtain rfl := eq_of_heq hnext
    obtain ⟨hspent, hroom, hleft⟩ := hlocal
    refine ⟨hshared.quiet rfl, hspent.own (.refl _) rfl, _, hleft.append _, ?_⟩
    simp only [admittedResult]
    omega
  | done | failed => cases hflow

theorem Shared.passes {s t : ZServer} (hpasses : ZServer.Passes s t)
    (hshared : Shared key limit windowSeconds h s) :
    Shared key limit windowSeconds (h ++ [⟨s, .env, t⟩]) t := by
  obtain ⟨now, hnow, rfl⟩ := hpasses
  refine Shared.shrink hshared rfl hnow rfl ((s.keys key).purge_shrinks now) fun m hm => ?_
  rcases (s.keys key).mem_purge now hm with hkept | hdue
  · exact Or.inl hkept
  · exact Or.inr (Or.inr hdue)

theorem hit_keeps (config : RateLimitConfig) (key : String) (limit windowSeconds : Int) :
    Pool.Keeps ZServer.exec ZServer.Passes (hitFlow config key limit windowSeconds)
      (.entry config limit windowSeconds) (Shared key limit windowSeconds)
      (Local config key limit) where
  start h s i hshared hnone := by
    refine ⟨hshared.quiet rfl, Local.entry ?_⟩
    exact Made.own (x := ⟨s, .start i, s⟩) (made_of_not_started key hnone) (.refl _) rfl
  issue h s i q c next hflow hshared hlocal := Local.issue hflow hshared hlocal
  passes h s t hpasses hshared := hshared.passes hpasses
  frame h s j q _ hlocal := by
    refine ⟨fun i hij => ?_, fun i q' c next hij hflow _ => ?_, fun t hpasses => ?_⟩
    · exact Local.frame (x := ⟨s, .start i, s⟩) hlocal (by simpa [Pool.Label.proc] using hij)
        (.refl key s)
    · exact Local.frame (x := ⟨s, .issue i c _, _⟩) hlocal (by simpa [Pool.Label.proc] using hij)
        (hitFlow_change hflow s)
    · exact Local.frame (x := ⟨s, .env, t⟩) hlocal (by simp [Pool.Label.proc])
        (hpasses.change key)

/-- The invariant holds at the end of every run that starts with an empty key. -/
theorem hit_invariant (hlimit : 0 < limit) {s : ZServer} (hempty : (s.keys key).members = [])
    {p : HitPool} {tr : List (Transition HitPool HitLabel)}
    (hrun : Run (HitStep config key limit windowSeconds) (Pool.fresh s) tr p) :
    Pool.Holds (hitFlow config key limit windowSeconds) (Shared key limit windowSeconds)
      (Local config key limit) (Pool.history tr) p := by
  refine Pool.invariant (hit_follows config key limit windowSeconds)
    (hit_keeps config key limit windowSeconds) hrun ?_
  refine ⟨by simp [hempty]; omega, by simp [hempty], by simp, by simp, by simp, by simp⟩

end keeps

end BaseWebService.RateLimit
