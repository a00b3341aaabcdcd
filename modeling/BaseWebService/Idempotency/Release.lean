import BaseWebService.Idempotency.Ownership

/-!
# Locks that are given back

The DEL stands after `call_next` and not in a `finally`, so a request gives its lock back where the
inner application answers and keeps it where the inner application raises.
-/

namespace BaseWebService.Idempotency

open Library Redis IdempotencyRequestMiddleware

variable {ρ ε : Type} {app : IdempotencyRequestMiddleware} {w : World ρ ε}
  {p : RequestPool ρ ε} {tr : List (Transition (RequestPool ρ ε) (RequestLabel ρ ε))}

/-- The request has answered, or failed. -/
def Finished (p : RequestPool ρ ε) (i : ℕ) : Prop :=
  (∃ answer, p.procs i = some (.ret answer)) ∨ ∃ e, p.procs i = some (.raise e)

/-- No lock that a finished request has set is still there. -/
def Released (h : RequestHistory ρ ε) (p : RequestPool ρ ε) : Prop :=
  ∀ i key t, Finished p i → acquired i h = some (key, t) → holder key h = some (i, t) →
    p.store.redis.entries key = none

/-- In the run every finished request has given its lock back, and no later request is turned away
because of one. -/
structure LocksReleased (app : IdempotencyRequestMiddleware) (w : World ρ ε)
    (tr : List (Transition (RequestPool ρ ε) (RequestLabel ρ ε))) : Prop where
  released : ∀ past future p, tr = past ++ future →
    Run (ServeStep app) (Pool.fresh w) past p → Released (Pool.history past) p
  retried : ∀ past x future, tr = past ++ x :: future → ∀ j key seconds,
    x.label = .issue j (.set key "1" seconds) false → ∀ i t,
    holder key (Pool.history past) = some (i, t) → ¬ Finished x.before i

theorem released_of_kept (hempty : w.redis = .empty w.redis.now)
    (hrun : Run (ServeStep app) (Pool.fresh w) tr p) (hkept : Throughout Kept (Pool.history tr)) :
    Released (Pool.history tr) p := by
  have hinv := serve_invariant hempty hrun
  rintro i key t (⟨answer, hi⟩ | ⟨e, hi⟩) hacquired hholder
  · obtain ⟨q, hfollows, hlocal⟩ := hinv.point i _ hi
    cases q with
    | done => exact absurd hholder (hlocal key t hacquired)
    | accept | passing | set | handler | delete | failed => cases hfollows
  · obtain ⟨q, hfollows, hlocal⟩ := hinv.point i _ hi
    cases q with
    | failed =>
      rcases hlocal hkept key t hacquired with hover | hother
      · rw [hinv.shared.entries, hholder, lockEntry, if_neg (by omega)]
      · exact absurd hholder hother
    | accept | passing | set | handler | delete | done => cases hfollows

/-- A SET is refused only where the key is there. -/
theorem entry_of_refused {p q : RequestPool ρ ε} {j : ℕ} {key : String} {seconds : Int}
    (hstep : ServeStep app p (.issue j (.set key "1" seconds) false) q) :
    p.store.redis.entries key ≠ none := by
  intro hnone
  generalize hl : (Pool.Label.issue j (.set key "1" seconds) false : RequestLabel ρ ε) = l at hstep
  cases hstep with
  | start | env => cases hl
  | issue hi =>
    obtain ⟨rfl, rfl, hreply⟩ := Pool.Label.issue.inj hl
    have hfalse := eq_of_heq hreply
    rw [World.exec, StringServer.setNx_of_none hnone] at hfalse
    cases hfalse

/-- Where the inner application raises, a request that has a lock is finished. -/
theorem finished_of_raised (hempty : w.redis = .empty w.redis.now) {q : RequestPool ρ ε}
    (hrun : Run (ServeStep app) (Pool.fresh w) tr p) {i : ℕ} {e : ε}
    (hstep : ServeStep app p (.issue i .callNext (.error e)) q) {key : String} {t : Int}
    (hacquired : acquired i (Pool.history tr) = some (key, t)) :
    Finished q i ∧ q.store = p.store := by
  generalize hl : (Pool.Label.issue i .callNext (.error e) : RequestLabel ρ ε) = l at hstep
  cases hstep with
  | start | env => cases hl
  | @issue j c k hi =>
    obtain ⟨rfl, rfl, hreply⟩ := Pool.Label.issue.inj hl
    have houtcome : Except.error e = p.store.outcome := eq_of_heq hreply
    obtain ⟨q, ⟨next, hflow, hnext⟩, hlocal⟩ := (serve_invariant hempty hrun).point i _ hi
    refine ⟨Or.inr ?_, rfl⟩
    change ∃ e, Function.update p.procs i (some (k p.store.outcome)) i = _
    rw [Function.update_self, ← houtcome]
    cases q with
    | handler =>
      obtain ⟨-, hnext'⟩ := Node.call.inj hflow
      obtain rfl := eq_of_heq hnext'
      have hfollows : Follows (serveFlow app) (k (.error e)) (.failed (.raised e)) := hnext _
      exact ⟨_, congrArg some (hfollows.eq_raise rfl)⟩
    | passing => exact absurd (hacquired.symm.trans hlocal) (by simp)
    | accept | set | delete => cases hflow
    | done | failed => cases hflow

/-- Locks are given back in a run if and only if the inner application never raises while the
request's own lock lasts. -/
theorem locksReleased_iff_kept (hempty : w.redis = .empty w.redis.now)
    (hrun : Run (ServeStep app) (Pool.fresh w) tr p) :
    LocksReleased app w tr ↔ Throughout Kept (Pool.history tr) := by
  constructor
  · intro h past x future hsplit i e hx key t hacquired
    obtain ⟨pre, y, post, rfl, rfl, rfl⟩ := Pool.history_eq_append_cons hsplit
    obtain ⟨q, hpast, hfuture⟩ := hrun.append_inv
    obtain ⟨rfl, hstep, -⟩ := hfuture.cons_inv
    have hlabel : y.label = .issue i .callNext (.error e) := hx
    obtain ⟨hfinished, hstore⟩ := finished_of_raised hempty hpast (hlabel ▸ hstep) hacquired
    by_contra hlasting
    obtain ⟨hlasts, hholder⟩ := not_or.mp hlasting
    rw [not_not] at hholder
    -- The request has just finished and its lock is the one that is there.
    have hquiet : takes y.label = none ∧ frees y.label = none := by
      rw [hlabel]
      exact ⟨rfl, rfl⟩
    have hholder' : holder key (Pool.history (pre ++ [y])) = some (i, t) := by
      rw [Pool.history_append]
      exact (holder_of_quiet hquiet.1 hquiet.2).trans hholder
    have hacquired' : acquired i (Pool.history (pre ++ [y])) = some (key, t) := by
      rw [Pool.history_append]
      exact (acquired_of_quiet hquiet.1).trans hacquired
    have hgone := h.released (pre ++ [y]) post y.after (by simp) (hpast.snoc hstep) i key t
      hfinished hacquired' hholder'
    rw [hstore, (serve_invariant hempty hpast).shared.entries, hholder, lockEntry] at hgone
    exact absurd hgone (by simpa using hlasts)
  · intro hkept
    have hreleased : ∀ past future p, tr = past ++ future →
        Run (ServeStep app) (Pool.fresh w) past p → Released (Pool.history past) p := by
      rintro past future p rfl hpast
      rw [Pool.history_append] at hkept
      exact released_of_kept hempty hpast hkept.of_append
    refine ⟨hreleased, ?_⟩
    rintro past x future rfl j key seconds hx i t hholder hfinished
    obtain ⟨q, hpast, hfuture⟩ := hrun.append_inv
    obtain ⟨rfl, hstep, -⟩ := hfuture.cons_inv
    have hacquired := (serve_invariant hempty hpast).shared.own key i t hholder
    exact entry_of_refused (hx ▸ hstep)
      (hreleased past (x :: future) x.before rfl hpast i key t hfinished hacquired hholder)

/-! ## A handler that raises -/

/-- The world of one POST on which the inner application raises. -/
def failingWorld : World Unit Unit := { postWorld with outcome := .error () }

/-- The steps of a request that is turned away. -/
def refused (i : ℕ) (key : String) (w : World ρ ε) : RequestHistory ρ ε :=
  arriving i w ++ [⟨w, .issue i (.set key "1" idempotencyTtlSeconds) false, w⟩]

variable (app) in
/-- A write request whose body is locked is answered 409. -/
theorem plays_refused {p : RequestPool ρ ε} {i : ℕ} (hi : p.procs i = none)
    {method : String} {body : List UInt8} (hincoming : p.store.incoming = ⟨method, .ok body⟩)
    (hmethod : writeMethods.contains method = true) (hpool : app.redisPool = true)
    (hbody : body.isEmpty = false) {entry : Entry}
    (hthere : p.store.redis.entries (app.buildKey body) = some entry) :
    Plays app p (refused i (app.buildKey body) p.store)
      ⟨p.store, Function.update p.procs i (some (.ret conflict))⟩ := by
  have hset : World.exec (.set (app.buildKey body) "1" idempotencyTtlSeconds) p.store =
      (false, p.store) := by
    simp only [World.exec, StringServer.setNx_of_some hthere]
    rfl
  refine (plays_arriving app hi hincoming hmethod hpool hbody).trans ?_
  exact ⟨_, rfl, Run.single (Pool.Step.issue_update hset)⟩

variable (app) in
/-- A request with a lock fails where its inner application raises. -/
theorem plays_failing {p : RequestPool ρ ε} {i : ℕ} {key : String}
    (hi : p.procs i = some (underLock key)) {e : ε} (houtcome : p.store.outcome = .error e) :
    Plays app p [⟨p.store, .issue i .callNext (.error e), p.store⟩]
      ⟨p.store, Function.update p.procs i (some (.raise (.raised e)))⟩ := by
  have hstep : ServeStep app p (.issue i .callNext p.store.outcome) _ := Pool.Step.issue_of hi rfl
  rw [houtcome] at hstep
  exact ⟨_, rfl, Run.single hstep⟩

/-- Request 0 takes the lock and fails, and request 1 is turned away. -/
def failedHistory : RequestHistory Unit Unit :=
  let key := oneDigest.buildKey [1]
  let w := failingWorld.lock key
  acquiring 0 key failingWorld ++ [⟨w, .issue 0 .callNext (.error ()), w⟩] ++ refused 1 key w

theorem exists_failed : ∃ p, Plays oneDigest (Pool.fresh failingWorld) failedHistory p ∧
    Finished p 0 ∧ p.procs 1 = some (.ret conflict) ∧
    (p.store.redis.entries (oneDigest.buildKey [1])).isSome = true := by
  have hplays := ((plays_post (p := Pool.fresh failingWorld) (i := 0) rfl rfl rfl).trans
    (plays_failing _ (i := 0) rfl rfl)).trans
    (plays_refused oneDigest (p := ⟨_, _⟩) (i := 1) rfl rfl (by decide) rfl rfl rfl)
  exact ⟨_, hplays, Or.inr ⟨_, rfl⟩, rfl, rfl⟩

/-- The retry is answered 409 although nothing runs. -/
theorem failed_request_keeps_lock : ∃ tr p,
    Run (ServeStep oneDigest) (Pool.fresh failingWorld) tr p ∧
      ¬ Released (Pool.history tr) p ∧ ¬ LocksReleased oneDigest failingWorld tr ∧
      p.procs 1 = some (.ret conflict) := by
  obtain ⟨p, ⟨tr, hh, hrun⟩, hfinished, hconflict, hthere⟩ := exists_failed
  have hnot : ¬ Released (Pool.history tr) p := by
    intro hreleased
    rw [hh] at hreleased
    rw [hreleased 0 (oneDigest.buildKey [1]) 0 hfinished rfl rfl] at hthere
    cases hthere
  exact ⟨tr, p, hrun, hnot, fun h => hnot (h.released tr [] p (by simp) hrun), hconflict⟩

/-- The inner application raises in the step. -/
def raises : RequestLabel ρ ε → Bool
  | .issue _ .callNext (.error _) => true
  | _ => false

theorem kept_of_raises {h : RequestHistory ρ ε} {x : Transition (World ρ ε) (RequestLabel ρ ε)}
    (hraises : raises x.label = false) : Kept h x := by
  intro i e hx
  rw [hx] at hraises
  cases hraises

/-- Request 0 fails when its lock has expired, and request 1 takes the lock and answers. -/
def keptHistory : RequestHistory Unit Unit :=
  let key := oneDigest.buildKey [1]
  let w := (failingWorld.lock key).expire
  let w' := { w.expire with outcome := .ok () }
  acquiring 0 key failingWorld ++ [⟨failingWorld.lock key, .env, w⟩] ++
    [⟨w, .issue 0 .callNext (.error ()), w⟩] ++ [⟨w, .env, w'⟩] ++ acquiring 1 key w' ++
    releasing 1 key (w'.lock key)

/-- No lock is left behind by a request that fails too late or by one that answers. -/
theorem locksReleased_iff_kept_late : ∃ tr p,
    Run (ServeStep oneDigest) (Pool.fresh failingWorld) tr p ∧ Pool.history tr = keptHistory ∧
      p.procs 0 = some (.raise (.raised ())) ∧ p.procs 1 = some (.ret (.response ())) ∧
      LocksReleased oneDigest failingWorld tr := by
  let w := (failingWorld.lock (oneDigest.buildKey [1])).expire
  have hpasses : World.Passes w { w.expire with outcome := .ok () } := w.passes_expire
  have hplays := (((((plays_post (p := Pool.fresh failingWorld) (i := 0) rfl rfl rfl).trans
    (plays_env _ (World.passes_expire _))).trans (plays_failing _ (i := 0) rfl rfl)).trans
    (plays_env _ hpasses)).trans (plays_post (p := ⟨_, _⟩) (i := 1) rfl rfl rfl)).trans
    (plays_releasing _ (i := 1) rfl rfl)
  obtain ⟨tr, hh, hrun⟩ := hplays
  have hh : Pool.history tr = keptHistory := hh
  refine ⟨tr, _, hrun, hh, rfl, rfl, (locksReleased_iff_kept rfl hrun).mpr ?_⟩
  rw [hh]
  have hbefore : ∀ x ∈ keptHistory.take 4, raises x.label = false := by decide
  have hafter : ∀ x ∈ keptHistory.drop 5, raises x.label = false := by decide
  have hfailed : Throughout Kept (keptHistory.take 5) := by
    refine throughout_snoc.mpr
      ⟨throughout_nil.append fun x hx _ => kept_of_raises (hbefore x hx), ?_⟩
    intro i e hx key t hacquired
    obtain ⟨rfl, -, -⟩ := Pool.Label.issue.inj hx
    have hlock : some (oneDigest.buildKey [1], (0 : Int)) = some (key, t) := hacquired
    obtain ⟨-, rfl⟩ := Prod.mk.inj (Option.some.inj hlock)
    exact Or.inl (by decide)
  exact hfailed.append fun x hx _ => kept_of_raises (hafter x hx)

end BaseWebService.Idempotency
