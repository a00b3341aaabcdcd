import BaseWebService.Idempotency.Interleaving

/-!
# Whose lock it is

A lock carries no name: DEL takes away whatever is under the key. As long as a request deletes only
while its own lock lasts, that is its own, and no two requests with a lasting lock on one body run
the inner application at once.
-/

namespace BaseWebService.Idempotency

open Library Redis IdempotencyRequestMiddleware

variable {ρ ε : Type} {app : IdempotencyRequestMiddleware} {w : World ρ ε}
  {p : RequestPool ρ ε} {tr : List (Transition (RequestPool ρ ε) (RequestLabel ρ ε))}

/-- The request runs the inner application. -/
def Executing (p : RequestPool ρ ε) (i : ℕ) : Prop := ∃ k, p.procs i = some (.call .callNext k)

/-- Of the requests whose own lock on a key still lasts, at most one runs the inner application. -/
def Exclusive (h : RequestHistory ρ ε) (p : RequestPool ρ ε) : Prop :=
  ∀ key i j t t', Executing p i → Executing p j → acquired i h = some (key, t) →
    acquired j h = some (key, t') → p.store.redis.now < t + ttlMs →
    p.store.redis.now < t' + ttlMs → i = j

/-- In the run no request deletes the lock of another, and the locks exclude at all times. -/
structure LocksOwned (app : IdempotencyRequestMiddleware) (w : World ρ ε)
    (tr : List (Transition (RequestPool ρ ε) (RequestLabel ρ ε))) : Prop where
  harmless : Throughout Harmless (Pool.history tr)
  exclusive : ∀ past future p, tr = past ++ future →
    Run (ServeStep app) (Pool.fresh w) past p → Exclusive (Pool.history past) p

/-- A request that runs the inner application with a lasting lock is the holder of it. -/
theorem holder_of_executing (hempty : w.redis = .empty w.redis.now)
    (hrun : Run (ServeStep app) (Pool.fresh w) tr p) (hprompt : Throughout Prompt (Pool.history tr))
    {i : ℕ} (hexecuting : Executing p i) {key : String} {t : Int}
    (hacquired : acquired i (Pool.history tr) = some (key, t))
    (hlasts : p.store.redis.now < t + ttlMs) : holder key (Pool.history tr) = some (i, t) := by
  obtain ⟨k, hk⟩ := hexecuting
  obtain ⟨q, ⟨next, hflow, -⟩, hlocal⟩ := (serve_invariant hempty hrun).point i _ hk
  cases q with
  | handler key' =>
    obtain ⟨t', hacquired', hholds⟩ := hlocal
    obtain ⟨rfl, rfl⟩ : key' = key ∧ t' = t := by simpa using hacquired'.symm.trans hacquired
    exact hholds hprompt hlasts
  | passing => exact absurd (hacquired.symm.trans hlocal) (by simp)
  | accept | set | delete => cases hflow
  | done | failed => cases hflow

/-- The locks are owned in a run if and only if every DEL of a lock that is there comes from a
request whose own lock still lasts. -/
theorem locksOwned_iff_prompt (hempty : w.redis = .empty w.redis.now)
    (hrun : Run (ServeStep app) (Pool.fresh w) tr p) :
    LocksOwned app w tr ↔ Throughout Prompt (Pool.history tr) := by
  have hiff := (serve_invariant hempty hrun).shared.prompt_iff
  refine ⟨fun h => hiff.mpr h.harmless, fun hprompt => ⟨hiff.mp hprompt, ?_⟩⟩
  rintro past future q rfl hpast key i j t t' hi hj hacquired hacquired' hlasts hlasts'
  rw [Pool.history_append] at hprompt
  have hholder := holder_of_executing hempty hpast hprompt.of_append hi hacquired hlasts
  have hholder' := holder_of_executing hempty hpast hprompt.of_append hj hacquired' hlasts'
  exact (Prod.mk.inj (Option.some.inj (hholder.symm.trans hholder'))).1

/-! ## Runs of requests with a lock -/

/-- Some run of the requests leaves this history. -/
def Plays (app : IdempotencyRequestMiddleware) (p : RequestPool ρ ε) (h : RequestHistory ρ ε)
    (q : RequestPool ρ ε) : Prop :=
  ∃ tr, Pool.history tr = h ∧ Run (ServeStep app) p tr q

theorem Plays.trans {p q r : RequestPool ρ ε} {h h' : RequestHistory ρ ε} (hp : Plays app p h q)
    (hq : Plays app q h' r) : Plays app p (h ++ h') r := by
  obtain ⟨tr, rfl, hrun⟩ := hp
  obtain ⟨tr', rfl, hrun'⟩ := hq
  exact ⟨tr ++ tr', by simp, hrun.trans hrun'⟩

/-- What a request does once it has its lock. -/
def underLock (key : String) : M ρ ε (Answer ρ) := do
  let response ← callNext
  (.perform (Call.delete key) : M ρ ε Unit)
  return .response response

/-- Redis after a SET of a free key. -/
def World.lock (w : World ρ ε) (key : String) : World ρ ε :=
  { w with redis := (w.redis.setNx key "1" idempotencyTtlSeconds).2 }

def World.unlock (w : World ρ ε) (key : String) : World ρ ε :=
  { w with redis := w.redis.delete key }

/-- The steps of a request up to its SET. -/
def arriving (i : ℕ) (w : World ρ ε) : RequestHistory ρ ε :=
  [⟨w, .start i, w⟩, ⟨w, .issue i .accept w.incoming, w⟩]

/-- The steps of a request up to its lock. -/
def acquiring (i : ℕ) (key : String) (w : World ρ ε) : RequestHistory ρ ε :=
  arriving i w ++ [⟨w, .issue i (.set key "1" idempotencyTtlSeconds) true, w.lock key⟩]

/-- The steps of a request after its lock, where the inner application answers. -/
def releasing (i : ℕ) (key : String) (w : World ρ ε) : RequestHistory ρ ε :=
  [⟨w, .issue i .callNext w.outcome, w⟩, ⟨w, .issue i (.delete key) (), w.unlock key⟩]

/-- What a write request does that has a body: it asks for its lock. -/
def askLock (key : String) : M ρ ε (Answer ρ) :=
  .call (.set key "1" idempotencyTtlSeconds) fun (locked : Bool) =>
    if !locked then pure conflict else underLock key

theorem dispatch_write {method : String} {body : List UInt8}
    (hmethod : writeMethods.contains method = true) (hpool : app.redisPool = true)
    (hbody : body.isEmpty = false) :
    app.dispatch ⟨method, .ok body⟩ = (askLock (app.buildKey body) : M ρ ε (Answer ρ)) := by
  unfold dispatch getRedisClient readBody
  rw [hpool, hmethod]
  simp only [Bool.not_true, Bool.false_eq_true, if_false, if_true, Prog.pure_def, Prog.ret_bind,
    hbody]
  rfl

variable (app) in
theorem plays_arriving {p : RequestPool ρ ε} {i : ℕ} (hi : p.procs i = none)
    {method : String} {body : List UInt8} (hincoming : p.store.incoming = ⟨method, .ok body⟩)
    (hmethod : writeMethods.contains method = true) (hpool : app.redisPool = true)
    (hbody : body.isEmpty = false) : Plays app p (arriving i p.store)
      ⟨p.store, Function.update p.procs i (some (askLock (app.buildKey body)))⟩ := by
  have hstart : ServeStep app p (.start i) _ := .start hi
  have haccept : ServeStep app ⟨p.store, Function.update p.procs i (some app.serve)⟩
      (.issue i .accept p.store.incoming)
      ⟨p.store, Function.update p.procs i (some (app.dispatch p.store.incoming))⟩ :=
    Pool.Step.issue_update rfl
  rw [← dispatch_write hmethod hpool hbody, ← hincoming]
  exact ⟨_, rfl, Run.cons hstart (Run.single haccept)⟩

variable (app) in
/-- A write request whose body nobody has locked takes the lock. -/
theorem plays_acquiring {p : RequestPool ρ ε} {i : ℕ} (hi : p.procs i = none)
    {method : String} {body : List UInt8} (hincoming : p.store.incoming = ⟨method, .ok body⟩)
    (hmethod : writeMethods.contains method = true) (hpool : app.redisPool = true)
    (hbody : body.isEmpty = false) (hfree : p.store.redis.entries (app.buildKey body) = none) :
    Plays app p (acquiring i (app.buildKey body) p.store) ⟨p.store.lock (app.buildKey body),
      Function.update p.procs i (some (underLock (app.buildKey body)))⟩ := by
  have hset : World.exec (.set (app.buildKey body) "1" idempotencyTtlSeconds) p.store =
      (true, p.store.lock (app.buildKey body)) := by
    simp only [World.exec, World.lock, StringServer.setNx_of_none hfree]
    rfl
  refine (plays_arriving app hi hincoming hmethod hpool hbody).trans ?_
  exact ⟨_, rfl, Run.single (Pool.Step.issue_update hset)⟩

variable (app) in
/-- A request with a lock, whose inner application answers, gives it back. -/
theorem plays_releasing {p : RequestPool ρ ε} {i : ℕ} {key : String}
    (hi : p.procs i = some (underLock key)) {response : ρ}
    (houtcome : p.store.outcome = .ok response) :
    Plays app p (releasing i key p.store) ⟨p.store.unlock key,
      Function.update p.procs i (some (.ret (.response response)))⟩ := by
  have hcall : ServeStep app p (.issue i .callNext p.store.outcome)
      ⟨p.store, Function.update p.procs i
        (some (.call (.delete key) fun _ => .ret (.response response)))⟩ := by
    have hstep : ServeStep app p (.issue i .callNext p.store.outcome) _ :=
      Pool.Step.issue_of hi rfl
    rw [houtcome] at hstep ⊢
    exact hstep
  exact ⟨_, rfl, Run.cons hcall (Run.single (Pool.Step.issue_update rfl))⟩

/-! ## A handler that outlives its lock -/

/-- An application with a Redis pool, where every body has one digest. -/
def oneDigest : IdempotencyRequestMiddleware := ⟨fun _ => "d", true⟩

/-- An empty Redis, and nothing but the same POST, which the inner application answers. -/
def postWorld : World Unit Unit := ⟨.empty 0, ⟨"POST", .ok [1]⟩, .ok ()⟩

/-- The time a lock lasts has passed. -/
def World.expire (w : World ρ ε) : World ρ ε :=
  { w with redis := w.redis.advance (w.redis.now + ttlMs) }

theorem World.passes_expire (w : World ρ ε) : World.Passes w w.expire := by
  refine ⟨w.redis.now + ttlMs, ?_, rfl⟩
  have := ttlMs_pos
  omega

variable (app) in
/-- Nobody does anything while the world changes. -/
theorem plays_env {p : RequestPool ρ ε} {w : World ρ ε} (hpasses : World.Passes p.store w) :
    Plays app p [⟨p.store, .env, w⟩] ⟨w, p.procs⟩ :=
  ⟨_, rfl, Run.single (Pool.Step.env hpasses)⟩

/-- The lock of request 0 expires, request 1 takes it, request 0 answers and deletes it, and
request 2 takes it again. -/
def outlivedHistory : RequestHistory Unit Unit :=
  let key := oneDigest.buildKey [1]
  let w := (postWorld.lock key).expire
  acquiring 0 key postWorld ++ [⟨postWorld.lock key, .env, w⟩] ++ acquiring 1 key w ++
    releasing 0 key (w.lock key) ++ acquiring 2 key ((w.lock key).unlock key)

theorem plays_post {p : RequestPool Unit Unit} {i : ℕ} (hi : p.procs i = none)
    (hincoming : p.store.incoming = postWorld.incoming)
    (hfree : p.store.redis.entries (oneDigest.buildKey [1]) = none) :
    Plays oneDigest p (acquiring i (oneDigest.buildKey [1]) p.store)
      ⟨p.store.lock (oneDigest.buildKey [1]),
        Function.update p.procs i (some (underLock (oneDigest.buildKey [1])))⟩ :=
  plays_acquiring oneDigest hi hincoming (by decide) rfl rfl hfree

theorem exists_outlived : ∃ p, Plays oneDigest (Pool.fresh postWorld) outlivedHistory p ∧
    Executing p 1 ∧ Executing p 2 ∧ p.store.redis.now = ttlMs := by
  have hplays := ((((plays_post (p := Pool.fresh postWorld) (i := 0) rfl rfl rfl).trans
    (plays_env _ (World.passes_expire _))).trans
    (plays_post (p := ⟨_, _⟩) (i := 1) rfl rfl rfl)).trans
    (plays_releasing _ (i := 0) rfl rfl)).trans (plays_post (p := ⟨_, _⟩) (i := 2) rfl rfl rfl)
  exact ⟨_, hplays, ⟨_, rfl⟩, ⟨_, rfl⟩, rfl⟩

/-- The late DEL takes away the lock of request 1, and requests 1 and 2 run side by side. -/
theorem late_delete_not_owned : ∃ tr p, Run (ServeStep oneDigest) (Pool.fresh postWorld) tr p ∧
    ¬ Throughout Harmless (Pool.history tr) ∧ ¬ Exclusive (Pool.history tr) p := by
  obtain ⟨p, ⟨tr, hh, hrun⟩, hone, htwo, hnow⟩ := exists_outlived
  refine ⟨tr, p, hrun, ?_, ?_⟩
  · rw [hh]
    intro hharmless
    have hdelete := hharmless (outlivedHistory.take 8) _ (outlivedHistory.drop 9) rfl 0
      (oneDigest.buildKey [1]) rfl rfl 1 ttlMs rfl
    exact absurd hdelete (by decide)
  · rw [hh]
    intro hexclusive
    have hsame := hexclusive (oneDigest.buildKey [1]) 1 2 ttlMs ttlMs hone htwo rfl rfl
      (by rw [hnow]; decide) (by rw [hnow]; decide)
    exact absurd hsame (by decide)

/-- The lock of request 0 expires, request 1 takes it, and gives it back in time. -/
def promptHistory : RequestHistory Unit Unit :=
  let key := oneDigest.buildKey [1]
  let w := (postWorld.lock key).expire
  acquiring 0 key postWorld ++ [⟨postWorld.lock key, .env, w⟩] ++ acquiring 1 key w ++
    releasing 1 key (w.lock key)

/-- A request that is back in time owns its lock, also beside one that is late. -/
theorem locksOwned_iff_prompt_late : ∃ tr p,
    Run (ServeStep oneDigest) (Pool.fresh postWorld) tr p ∧ Pool.history tr = promptHistory ∧
      Executing p 0 ∧ p.procs 1 = some (.ret (.response ())) ∧
      LocksOwned oneDigest postWorld tr := by
  have hplays := (((plays_post (p := Pool.fresh postWorld) (i := 0) rfl rfl rfl).trans
    (plays_env _ (World.passes_expire _))).trans
    (plays_post (p := ⟨_, _⟩) (i := 1) rfl rfl rfl)).trans (plays_releasing _ (i := 1) rfl rfl)
  obtain ⟨tr, hh, hrun⟩ := hplays
  have hh : Pool.history tr = promptHistory := hh
  refine ⟨tr, _, hrun, hh, ⟨_, rfl⟩, rfl, (locksOwned_iff_prompt rfl hrun).mpr ?_⟩
  rw [hh]
  have hquiet : ∀ x ∈ promptHistory.take 8, frees x.label = none := by decide
  have hanswered : Throughout Prompt (promptHistory.take 8) :=
    throughout_nil.append fun x hx _ => prompt_of_frees (hquiet x hx)
  refine throughout_snoc.mpr ⟨hanswered, fun i key hx _ => ?_⟩
  obtain ⟨rfl, hcall, -⟩ := Pool.Label.issue.inj hx
  obtain rfl := Call.delete.inj hcall
  exact ⟨ttlMs, rfl, by decide⟩

end BaseWebService.Idempotency
