import BaseWebService.Celery.Steady

/-!
# The life of a worker process

Each function of the worker leaves a steady process steady: tasks, which may use Redis, Mongo and
the database in any order; the shutdown, which closes the loop when nothing is connected on it any
more; and the bootstrap, which makes a Redis pool if there has been none.
-/

namespace BaseWebService.Celery

open Library

section rules
variable {i : ℕ} {h h₀ h₁ : List CeleryEvent} {m m₀ m₁ t : Memory} {c : Command} {r : c.Reply}
  {α : Type}

/-! ## Tasks -/

/-- A connection is opened on the process's own loop. -/
theorem Steady.connect {resource : Resource} {r : Except Failure (Handle × Connection)}
    (hm : Steady i h m) (hhas : m.Has resource) (ht : m.Answer i (.connect resource) r t) :
    Later i h m (h ++ [⟨.connect resource, r⟩]) t := by
  have hwf := hm.wellFormed
  cases ht with
  | @reuse x loop kept hrunning hx hkept =>
    have hnative : Native h ⟨.connect x.resource, .ok (loop, x)⟩ := by
      rintro _ _ _ ⟨⟩
      refine (hm.bound x hx).imp_left fun hloop => ?_
      exact Option.some_inj.mp (hloop.symm.trans (hwf.running loop hrunning))
    refine ⟨?_, rfl, rfl, rfl, by simp [isPool], fun _ => id⟩
    exact hm.snoc hnative rfl rfl rfl (hwf.keep hkept) rfl (fun y hy => hm.bound y (hkept hy))
      hm.pooled
  | @connect _ loop kept hrunning hkept =>
    have hloop := hwf.running loop hrunning
    have hnative : Native h ⟨.connect resource, .ok (loop, ⟨m.next i, resource, loop⟩)⟩ := by
      rintro _ _ _ ⟨⟩
      exact .inl rfl
    have hconnections : ∀ y ∈ kept, m.advance.Made i y.id ∧ m.advance.Made i y.loop ∧
        m.Has y.resource := by
      intro y hy
      rcases List.mem_cons.mp (hkept hy) with rfl | hy
      · exact ⟨made_next m, (hwf.workerLoop loop hloop).1.advance, hhas⟩
      · exact hwf.advance.connections y hy
    refine ⟨?_, rfl, rfl, rfl, by simp [isPool], fun _ => id⟩
    refine hm.snoc hnative rfl rfl rfl { hwf.advance with connections := hconnections } rfl
      (fun y hy => ?_) hm.pooled
    rcases List.mem_cons.mp (hkept hy) with rfl | hy
    · exact .inl hloop
    · exact hm.bound y hy
  | @connectError _ e kept hkept =>
    have hnative : Native h ⟨.connect resource, .error e⟩ := by rintro _ _ _ ⟨⟩
    refine ⟨?_, rfl, rfl, rfl, by simp [isPool], fun _ => id⟩
    exact hm.snoc hnative rfl rfl rfl (hwf.keep hkept) rfl (fun y hy => hm.bound y (hkept hy))
      hm.pooled

theorem connect_meets {resource : Resource} (hm : Steady i h m) (hhas : m.Has resource) :
    Meets i (Leaves i h m) (do orRaise (← ask (.connect resource))) h m := by
  refine meets_ask hm.sound fun r t ht => ?_
  have hlater := hm.connect hhas ht
  exact meets_orRaise hlater.sound hlater

/-- A client is one of the pool that is bound now. -/
theorem getClient_meets (hm : Steady i h m) :
    Meets i (fun r h' m' => Later i h m h' m' ∧
      ∀ client, r = .ok client → m'.pool = some client.pool) RedisCacheClient.getClient h m := by
  refine meets_ask hm.sound fun r t ht => ?_
  cases ht
  have hread : Later i h m (h ++ [⟨.readPool, m.pool⟩]) m :=
    (Later.refl hm).read trivial
  generalize h ++ [⟨.readPool, m.pool⟩] = h' at hread
  cases hpool : m.pool with
  | none => exact ⟨hread.sound, hread, nofun⟩
  | some pool =>
    refine meets_ask hread.sound fun r t ht => ?_
    cases ht
    have hread' := hread.read (c := .readClient) (r := m.client) trivial
    generalize h' ++ [⟨.readClient, m.client⟩] = h'' at hread'
    cases hclient : m.client with
    | some client =>
      refine ⟨hread'.sound, hread', ?_⟩
      rintro _ ⟨⟩
      exact hm.wellFormed.client client hclient
    | none =>
      refine meets_ask hread'.sound fun r t ht => ?_
      cases ht
      have hwf : WellFormed i { m with client := some ⟨pool⟩ } :=
        { hm.wellFormed with
          client := by
            rintro _ ⟨⟩
            exact hpool }
      have hlater := hread'.plain (c := .writeClient (some ⟨pool⟩)) (r := ()) trivial hwf
        ⟨rfl, rfl, rfl, rfl, List.Subset.refl _, id⟩
      refine ⟨hlater.sound, hlater, ?_⟩
      rintro _ ⟨⟩
      exact hpool

/-- A Mongo client is the one that is kept, made on the loop if there was none. -/
theorem mongoClient_meets (hm : Steady i h m) (hloop : m.workerLoop ≠ none) :
    Meets i (fun r h' m' => Later i h m h' m' ∧
      ∀ client, r = .ok client → m'.mongo = some client) MongoClientSingleton.getClient h m := by
  refine meets_ask hm.sound fun r t ht => ?_
  cases ht
  have hread : Later i h m (h ++ [⟨.readMongo, m.mongo⟩]) m :=
    (Later.refl hm).read trivial
  generalize h ++ [⟨.readMongo, m.mongo⟩] = h' at hread
  cases hmongo : m.mongo with
  | some client =>
    refine ⟨hread.sound, hread, ?_⟩
    rintro _ ⟨⟩
    exact hmongo
  | none =>
    refine meets_ask hread.sound fun r t ht => ?_
    cases ht with
    | @newMongoError text =>
      have hlater := hread.read (c := .newMongo) (r := .error (.raised text)) trivial
      exact ⟨hlater.sound, hlater, nofun⟩
    | newMongo =>
      have hmade := hread.plain (c := .newMongo) (r := .ok (m.next i)) trivial
        hm.wellFormed.advance ⟨rfl, rfl, rfl, rfl, List.Subset.refl _, id⟩
      refine meets_ask hmade.sound fun r t ht => ?_
      cases ht
      have hold := hm.wellFormed.advance
      have hwf : WellFormed i { m.advance with mongo := some (m.next i) } :=
        { hold with
          mongo := by
            rintro _ ⟨⟩
            exact made_next m
          connections := by
            intro x hx
            obtain ⟨hid, hxloop, hhas⟩ := hold.connections x hx
            refine ⟨hid, hxloop, ?_⟩
            generalize x.resource = resource at hhas ⊢
            cases resource with
            | redis pool => exact hhas
            | mongo client => exact absurd (hmongo.symm.trans hhas) nofun
            | engine engine => trivial
          gone := fun hnone => absurd hnone hloop }
      have hlater := hmade.plain (c := .writeMongo (some (m.next i))) (r := ()) trivial hwf
        ⟨rfl, rfl, rfl, rfl, List.Subset.refl _, id⟩
      refine ⟨hlater.sound, hlater, ?_⟩
      rintro _ ⟨⟩
      rfl

/-- A use opens connections on the loop that runs, and changes nothing else that others see. -/
theorem use_meets (hm : Steady i h m) (hloop : m.workerLoop ≠ none) (u : Use) :
    Meets i (Leaves i h m) u.run h m := by
  cases u with
  | redis =>
    refine (getClient_meets hm).bind (fun client h' m' hpost => ?_) fun e h' m' _ hpost => hpost.1
    obtain ⟨hlater, hpool⟩ := hpost
    have hhas : m'.Has (.redis client.pool) := hpool client rfl
    exact (connect_meets hlater.steady hhas).mono fun _ _ _ => hlater.trans
  | mongo =>
    refine (mongoClient_meets hm hloop).bind (fun client h' m' hpost => ?_)
      fun e h' m' _ hpost => hpost.1
    obtain ⟨hlater, hmongo⟩ := hpost
    have hhas : m'.Has (.mongo client) := hmongo client rfl
    exact (connect_meets hlater.steady hhas).mono fun _ _ _ => hlater.trans
  | engine engine => exact connect_meets hm trivial

/-- A program that runs on the loop of a process runs as it does when the loop has been entered. -/
theorem runUntilComplete_meets {loop : Handle} {p : M Unit}
    {P : Except Failure Unit → List CeleryEvent → Memory → Prop} (hm : Steady i h m)
    (hidle : m.running = none) (hloop : m.workerLoop = some loop)
    (hp : Steady i (h ++ [⟨.enter loop, .ok ()⟩]) { m with running := some loop } →
      Meets i (fun r h' m' =>
          Later i (h ++ [⟨.enter loop, .ok ()⟩]) { m with running := some loop } h' m' ∧ P r h' m')
        p (h ++ [⟨.enter loop, .ok ()⟩]) { m with running := some loop }) :
    Meets i (fun r h' m' => Later i h m h' m' ∧ ∃ h'' m'', P r h'' m'' ∧
        h' = h'' ++ [⟨.leave, ()⟩] ∧ m' = { m'' with running := none })
      (runUntilComplete loop p) h m := by
  have hopen := (hm.wellFormed.workerLoop loop hloop).2
  refine meets_ask hm.sound fun r t ht => ?_
  cases ht with
  | enterClosed hclosed => exact absurd hclosed hopen
  | enterRunning hrunning => exact absurd hidle hrunning
  | enter =>
    have hwf : WellFormed i { m with running := some loop } :=
      { hm.wellFormed with
        running := by
          rintro _ ⟨⟩
          exact hloop }
    have hentered : Steady i (h ++ [⟨.enter loop, .ok ()⟩]) { m with running := some loop } :=
      hm.plain (c := .enter loop) (r := .ok ()) trivial hwf rfl (List.Subset.refl _) id
    refine (hp hentered).attempt.bind (fun ended h'' m'' hended => ?_)
      fun e h'' m'' _ ⟨r', hr', _⟩ => nomatch hr'
    obtain ⟨r, ⟨⟩, hlater, hP⟩ := hended
    refine meets_ask hlater.sound fun r' t ht => ?_
    cases ht
    have hleft : WellFormed i { m'' with running := none } :=
      { hlater.steady.wellFormed with running := nofun }
    have hsteady := hlater.steady.plain (c := .leave) (r := ()) trivial hleft rfl
      (List.Subset.refl _) id
    refine meets_orRaise hsteady.sound ⟨⟨hsteady, hlater.pid, hlater.bootstrapped, hidle.symm, ?_,
      hlater.workerLoop⟩, h'', m'', hP, rfl, rfl⟩
    simpa [isPool] using hlater.pools

/-- `run_async` makes the loop if there is none, and never makes a pool. -/
theorem runAsync_meets {coro : M Unit} (hm : Steady i h m)
    (hcoro : ∀ {h m}, Steady i h m → m.running ≠ none → Meets i (Leaves i h m) coro h m) :
    Meets i (Leaves i h m) (runAsync coro) h m := by
  refine (getWorkerLoop_meets hm).bind (fun loop h' m' hpost => ?_) fun e h' m' _ hpost => hpost.1
  obtain ⟨hlater, hloop⟩ := hpost
  refine meets_ask hlater.sound fun r t ht => ?_
  cases ht
  have hread := hlater.read (c := .isRunning loop) (r := decide (m'.running = some loop)) trivial
  by_cases hrunning : m'.running = some loop
  · rw [if_pos (by simpa using hrunning)]
    exact ⟨hread.sound, hread⟩
  · rw [if_neg (by simpa using hrunning)]
    -- no other loop can be running
    have hidle : m'.running = none := by
      by_contra hne
      obtain ⟨other, hother⟩ := Option.ne_none_iff_exists'.mp hne
      have hsame := (hlater.steady.wellFormed.running other hother).symm.trans (hloop loop rfl)
      exact hrunning (hother.trans hsame)
    refine (runUntilComplete_meets (P := fun _ _ _ => True) hread.steady hidle (hloop loop rfl)
      fun hentered => ?_).mono fun r h'' m'' hpost => hread.trans hpost.1
    exact (hcoro hentered nofun).mono fun _ _ _ hlater => ⟨hlater, trivial⟩

/-- A task may use, catch and nest what it likes: it leaves a steady process. -/
theorem coroutine_meets {p : M Unit} (hp : Coroutine p) : ∀ {h m}, Steady i h m →
    m.running ≠ none → Meets i (Leaves i h m) p h m := by
  induction hp with
  | ret => exact fun hm _ => ⟨hm.sound, .refl hm⟩
  | raise => exact fun hm _ => ⟨hm.sound, .refl hm⟩
  | @use u k _ ih =>
    intro h m hm hrunning
    obtain ⟨loop, hloop⟩ := Option.ne_none_iff_exists'.mp hrunning
    have hworker : m.workerLoop ≠ none := by simp [hm.wellFormed.running loop hloop]
    refine (use_meets hm hworker u).attempt.bind (fun r h' m' hended => ?_)
      fun e h' m' _ ⟨r', hr', _⟩ => nomatch hr'
    obtain ⟨r', ⟨⟩, hlater⟩ := hended
    exact (ih _ hlater.steady (hlater.running ▸ hrunning)).mono fun _ _ _ => hlater.trans
  | @isEnabled k _ ih =>
    intro h m hm hrunning
    refine meets_ask hm.sound fun r t ht => ?_
    cases ht
    have hread : Later i h m (h ++ [⟨.readPool, m.pool⟩]) m :=
    (Later.refl hm).read trivial
    exact (ih _ hread.steady hrunning).mono fun _ _ _ => hread.trans
  | @runAsync coro k _ _ ihcoro ih =>
    intro h m hm hrunning
    refine (runAsync_meets hm ihcoro).attempt.bind (fun r h' m' hended => ?_)
      fun e h' m' _ ⟨r', hr', _⟩ => nomatch hr'
    obtain ⟨r', ⟨⟩, hlater⟩ := hended
    exact (ih _ hlater.steady (hlater.running ▸ hrunning)).mono fun _ _ _ => hlater.trans

/-! ## The shutdown -/

/-- A pool that is closed without an error is bound no more. -/
theorem closePool_meets (hm : Later i h₀ m₀ h m) (hclient : m.client = none) :
    Meets i (fun r h' m' => Later i h₀ m₀ h' m' ∧
      (r = .ok () → m'.pool = none ∧ m'.client = none)) RedisCacheClient.closePool h m := by
  refine meets_ask hm.sound fun r t ht => ?_
  cases ht
  have hread := hm.read (c := .readPool) (r := m.pool) trivial
  generalize h ++ [⟨.readPool, m.pool⟩] = h' at hread
  cases hpool : m.pool with
  | none => exact ⟨hread.sound, hread, fun _ => ⟨hpool, hclient⟩⟩
  | some pool =>
    refine meets_ask hread.sound fun r t ht => ?_
    cases ht with
    | @disconnectError _ e kept hkept =>
      have hkeep := hread.keep (c := .disconnect pool) (r := .error e) trivial hkept
      exact ⟨hkeep.sound, hkeep, by rintro ⟨⟩⟩
    | disconnect =>
      have hdrop := hread.drop (c := .disconnect pool) (r := .ok ()) trivial (.redis pool)
      refine meets_ask hdrop.sound fun r t ht => ?_
      cases ht
      have hold := hdrop.steady.wellFormed
      have hwf : WellFormed i { m.drop (.redis pool) with pool := none } :=
        { hold with
          pool := by rintro _ ⟨⟩
          client := by
            show ∀ client ∈ m.client, _
            simp [hclient]
          connections := by
            intro x hx
            obtain ⟨hid, hloop, hhas⟩ := hold.connections x hx
            refine ⟨hid, hloop, ?_⟩
            have hne : x.resource ≠ .redis pool := by simpa using (List.mem_filter.mp hx).2
            generalize x.resource = resource at hhas hne ⊢
            cases resource with
            | redis other =>
              have hother : m.pool = some other := hhas
              obtain rfl := Option.some_inj.mp (hpool.symm.trans hother)
              exact absurd rfl hne
            | mongo client => exact hhas
            | engine engine => trivial
          gone := fun hnone => ⟨rfl, (hold.gone hnone).2⟩ }
      have hlater := hdrop.plain (c := .writePool none) (r := ()) trivial hwf
        ⟨rfl, rfl, rfl, rfl, List.Subset.refl _, absurd rfl⟩
      exact ⟨hlater.sound, hlater, fun _ => ⟨rfl, hclient⟩⟩

theorem close_meets (hm : Steady i h m) :
    Meets i (fun r h' m' => Later i h m h' m' ∧ (r = .ok () → m'.pool = none ∧ m'.client = none))
      RedisCacheClient.close h m := by
  refine meets_ask hm.sound fun r t ht => ?_
  cases ht
  have hread : Later i h m (h ++ [⟨.readClient, m.client⟩]) m :=
    (Later.refl hm).read trivial
  generalize h ++ [⟨.readClient, m.client⟩] = h' at hread
  cases hclient : m.client with
  | none => exact closePool_meets hread hclient
  | some client =>
    refine meets_ask hread.sound fun r t ht => ?_
    cases ht with
    | @aclose _ r kept hkept =>
      have hkeep := hread.keep (c := .aclose client) (r := r) trivial hkept
      cases r with
      | error e => exact ⟨hkeep.sound, hkeep, by rintro ⟨⟩⟩
      | ok _ =>
        refine meets_ask hkeep.sound fun r t ht => ?_
        cases ht
        have hwf : WellFormed i { m.keep kept with client := none } :=
          { hkeep.steady.wellFormed with client := by rintro _ ⟨⟩ }
        exact closePool_meets (hkeep.plain (c := .writeClient none) (r := ()) trivial hwf
          ⟨rfl, rfl, rfl, rfl, List.Subset.refl _, id⟩) rfl

/-- Closing the Mongo client touches nothing of Redis. -/
theorem mongoClose_meets (hm : Steady i h m) :
    Meets i (fun r h' m' => Later i h m h' m' ∧ m'.pool = m.pool ∧ m'.client = m.client ∧
      (r = .ok () → m'.mongo = none)) MongoClientSingleton.close h m := by
  refine meets_ask hm.sound fun r t ht => ?_
  cases ht
  have hread : Later i h m (h ++ [⟨.readMongo, m.mongo⟩]) m :=
    (Later.refl hm).read trivial
  generalize h ++ [⟨.readMongo, m.mongo⟩] = h' at hread
  -- the reset of the class variable, once nothing is connected to the client
  have hreset : ∀ {h' kept}, Later i h m h' (m.keep kept) →
      (∀ x ∈ kept, ∀ client, x.resource ≠ .mongo client) →
      Meets i (fun r h' m' => Later i h m h' m' ∧ m'.pool = m.pool ∧ m'.client = m.client ∧
        (r = .ok () → m'.mongo = none)) (ask (.writeMongo none)) h' (m.keep kept) := by
    intro h' kept hlater hkept
    refine ⟨hlater.sound, fun _ => id, fun r t ht => ?_⟩
    cases ht
    have hold := hlater.steady.wellFormed
    have hwf : WellFormed i { m.keep kept with mongo := none } :=
      { hold with
        mongo := nofun
        connections := by
          intro x hx
          obtain ⟨hid, hloop, hhas⟩ := hold.connections x hx
          refine ⟨hid, hloop, ?_⟩
          have hne := hkept x hx
          generalize x.resource = resource at hhas hne ⊢
          cases resource with
          | redis pool => exact hhas
          | mongo client => exact absurd rfl (hne client)
          | engine engine => trivial
        gone := fun hnone => ⟨(hold.gone hnone).1, rfl⟩ }
    have hreset := hlater.plain (c := .writeMongo none) (r := ()) trivial hwf
      ⟨rfl, rfl, rfl, rfl, List.Subset.refl _, id⟩
    exact ⟨hreset.sound, hreset, rfl, rfl, fun _ => rfl⟩
  cases hmongo : m.mongo with
  | none =>
    refine hreset hread fun x hx client hresource => ?_
    have hhas := (hm.wellFormed.connections x hx).2.2
    rw [hresource] at hhas
    exact absurd (hmongo.symm.trans hhas) nofun
  | some client =>
    refine meets_ask hread.sound fun r t ht => ?_
    cases ht with
    | @closeMongoError _ e kept hkept =>
      have hkeep := hread.keep (c := .closeMongo client) (r := .error e) trivial hkept
      exact ⟨hkeep.sound, hkeep, rfl, rfl, nofun⟩
    | closeMongo =>
      have hdrop := hread.drop (c := .closeMongo client) (r := .ok ()) trivial (.mongo client)
      refine hreset hdrop fun x hx other hresource => ?_
      obtain ⟨hx, hne⟩ := List.mem_filter.mp hx
      have hhas := (hm.wellFormed.connections x hx).2.2
      rw [hresource] at hhas
      obtain rfl := Option.some_inj.mp (hmongo.symm.trans hhas)
      simp [hresource] at hne

/-- All connections of the engine that are left are stale. -/
def Disposed (engine : Engine) (h : List CeleryEvent) (m : Memory) : Prop :=
  ∀ x ∈ m.connections, x.resource = .engine engine → Stale h x

theorem Disposed.snoc {engine : Engine} {e : CeleryEvent} (hm : Disposed engine h m)
    (hsub : t.connections ⊆ m.connections) : Disposed engine (h ++ [e]) t :=
  fun x hx hresource => (hm x (hsub hx) hresource).snoc

/-- Whether an engine can be disposed of or not, its connections are gone or known to be stale. -/
theorem Later.dispose {engine : Engine} {r : Except Failure Unit} (hm : Later i h₀ m₀ h m)
    (ht : m.Answer i (.dispose engine) r t) :
    Later i h₀ m₀ (h ++ [⟨.dispose engine, r⟩]) t ∧ (∃ kept, t = m.keep kept) ∧
      t.connections ⊆ m.connections ∧ Disposed engine (h ++ [⟨.dispose engine, r⟩]) t := by
  cases ht with
  | dispose =>
    refine ⟨hm.drop (c := .dispose engine) (r := .ok ()) trivial (.engine engine), ⟨_, rfl⟩,
      List.filter_subset_self _, ?_⟩
    intro x hx hresource
    have hne := (List.mem_filter.mp hx).2
    simp [hresource] at hne
  | @disposeError _ e kept hkept =>
    refine ⟨hm.keep (c := .dispose engine) (r := .error e) trivial hkept, ⟨_, rfl⟩, hkept, ?_⟩
    intro x _ hresource
    exact ⟨engine, e, hresource, List.mem_append_right _ (List.mem_singleton_self _)⟩

/-- What the first two steps of a shutdown leave. -/
structure Unbound (m : Memory) : Prop where
  pool : m.pool = none
  client : m.client = none
  mongo : m.mongo = none

/-- Both disposals are tried, whatever the first of them raises. -/
theorem disposeEngines_meets (hm : Steady i h m) :
    Meets i (fun _ h' m' => Later i h m h' m' ∧ (Unbound m → Unbound m') ∧
      ∀ engine, Disposed engine h' m') disposeEngines h m := by
  refine meets_ask hm.sound fun r t ht => ?_
  obtain ⟨hwrite, ⟨kept, rfl⟩, -, hdisposed⟩ := (Later.refl hm).dispose ht
  refine meets_ask hwrite.sound fun r' t' ht' => ?_
  obtain ⟨hread, ⟨kept', rfl⟩, hsub, hdisposed'⟩ := hwrite.dispose ht'
  refine ⟨hread.sound, hread, fun hunbound => ⟨hunbound.pool, hunbound.client, hunbound.mongo⟩, ?_⟩
  intro engine
  cases engine with
  | write => exact hdisposed.snoc hsub
  | read => exact hdisposed'

/-- A process whose loop has been closed, and `_WORKER_LOOP` not yet reset. -/
structure Emptied (i : ℕ) (h₀ : List CeleryEvent) (m₀ : Memory) (h : List CeleryEvent)
    (m : Memory) : Prop where
  sound : Sound i h m
  wellFormed : WellFormed i { m with workerLoop := none }
  pid : m.pid = m₀.pid
  bootstrapped : m.bootstrappedPids = m₀.bootstrappedPids
  running : m.running = m₀.running
  pools : poolsMade h = poolsMade h₀
  stale : ∀ x ∈ m.connections, Stale h x

/-- The loop is closed when nothing is left that was bound to it. -/
theorem Later.closeLoop {loop : Handle} (hm : Later i h₀ m₀ h m) (hidle : m.running = none)
    (hloop : m.workerLoop = some loop) (hunbound : Unbound m)
    (hdisposed : ∀ engine, Disposed engine h m) :
    Emptied i h₀ m₀ (h ++ [⟨.closeLoop loop, .ok ()⟩]) { m with closed := loop :: m.closed } where
  sound :=
    { own := hm.sound.own
      native := throughout_snoc.mpr ⟨hm.sound.native, native_plain trivial⟩
      pools := by simpa [isPool] using hm.sound.pools
      loops := by simpa [isLoop, isShutdown] using hm.sound.loops }
  wellFormed :=
    { hm.steady.wellFormed with
      workerLoop := by rintro _ ⟨⟩
      closed := by
        intro x hx
        rcases List.mem_cons.mp hx with rfl | hx
        · exact (hm.steady.wellFormed.workerLoop x hloop).1
        · exact hm.steady.wellFormed.closed x hx
      running := by
        show ∀ x ∈ m.running, _
        simp [hidle]
      gone := fun _ => ⟨hunbound.pool, hunbound.mongo⟩ }
  pid := hm.pid
  bootstrapped := hm.bootstrapped
  running := hm.running
  pools := by simpa [isPool] using hm.pools
  stale := by
    intro x hx
    have hhas := (hm.steady.wellFormed.connections x hx).2.2
    cases hresource : x.resource with
    | redis pool =>
      rw [hresource] at hhas
      cases hunbound.pool.symm.trans hhas
    | mongo client =>
      rw [hresource] at hhas
      cases hunbound.mongo.symm.trans hhas
    | engine engine => exact (hdisposed engine x hx hresource).snoc

/-- A shutdown that fails before its end keeps the loop, and one that does not leaves nothing. -/
theorem shutdownLoop_meets {loop : Handle} (hm : Steady i h m) (hidle : m.running = none)
    (hloop : m.workerLoop = some loop) :
    Meets i (fun r h' m' => match r with
      | .ok _ => Emptied i h m h' m'
      | .error _ => Later i h m h' m') (shutdownLoop loop) h m := by
  refine (runUntilComplete_meets hm hidle hloop close_meets).bind
    (fun _ h₁ m₁ hpost => ?_) fun e h' m' _ hpost => hpost.1
  obtain ⟨hlater₁, -, redis, hredis, -, rfl⟩ := hpost
  obtain ⟨hpool, hclient⟩ := hredis rfl
  refine (mongoClose_meets hlater₁.steady).bind (fun _ h₂ m₂ hpost => ?_)
    fun e h' m' _ hpost => hlater₁.trans hpost.1
  obtain ⟨hlater₂, hpool₂, hclient₂, hmongo⟩ := hpost
  replace hlater₂ := hlater₁.trans hlater₂
  have hunbound : Unbound m₂ := ⟨hpool₂.trans hpool, hclient₂.trans hclient, hmongo rfl⟩
  refine (runUntilComplete_meets hlater₂.steady (hlater₂.running.trans hidle)
    (hlater₂.workerLoop loop hloop) disposeEngines_meets).bind
    (fun _ _ _ hpost => ?_) fun e h' m' _ hpost => hlater₂.trans hpost.1
  obtain ⟨hlater₃, h₃, m₃, ⟨hunbound₃, hdisposed⟩, rfl, rfl⟩ := hpost
  replace hlater₃ := hlater₂.trans hlater₃
  refine (runUntilComplete_meets (P := fun _ h' m' => Unbound m' ∧ ∀ engine, Disposed engine h' m')
    hlater₃.steady rfl (hlater₃.workerLoop loop hloop) fun hentered => ?_).bind
    (fun _ _ _ hpost => ?_) fun e h' m' _ hpost => hlater₃.trans hpost.1
  · refine meets_ask hentered.sound fun r t ht => ?_
    cases ht
    have hread := (Later.refl hentered).read (c := .shutdownAsyncgens) (r := r) trivial
    have hunbound₄ := hunbound₃ ⟨hunbound.pool, hunbound.client, hunbound.mongo⟩
    refine meets_orRaise hread.sound
      ⟨hread, ⟨hunbound₄.pool, hunbound₄.client, hunbound₄.mongo⟩, ?_⟩
    intro engine
    have hsame : m₃.connections ⊆ m₃.connections := List.Subset.refl _
    exact ((((hdisposed engine).snoc hsame).snoc hsame).snoc hsame :)
  · obtain ⟨hlater₄, h₄, m₄, ⟨hunbound₄, hdisposed₄⟩, rfl, rfl⟩ := hpost
    replace hlater₄ := hlater₃.trans hlater₄
    refine meets_ask hlater₄.sound fun r t ht => ?_
    cases ht with
    | closeRunning hrunning => exact absurd hrunning nofun
    | closeLoop _ =>
      have hunbound' : Unbound { m₄ with running := none } :=
        ⟨hunbound₄.pool, hunbound₄.client, hunbound₄.mongo⟩
      have hemptied := hlater₄.closeLoop rfl (hlater₄.workerLoop loop hloop) hunbound'
        fun engine => (hdisposed₄ engine).snoc (List.Subset.refl _)
      exact ⟨hemptied.sound, hemptied⟩

theorem Emptied.of_later (h01 : Later i h₀ m₀ h₁ m₁) (hm : Emptied i h₁ m₁ h m) :
    Emptied i h₀ m₀ h m :=
  { hm with
    pid := hm.pid.trans h01.pid
    bootstrapped := hm.bootstrapped.trans h01.bootstrapped
    running := hm.running.trans h01.running
    pools := hm.pools.trans h01.pools }

/-- `_WORKER_LOOP` is reset at the end of a shutdown. -/
theorem Emptied.reset (hm : Emptied i h₀ m₀ h m) :
    Steady i (h ++ [⟨.writeWorkerLoop none, ()⟩]) { m with workerLoop := none } where
  wellFormed := hm.wellFormed
  native := throughout_snoc.mpr ⟨hm.sound.native, native_of_ne nofun⟩
  pools := by simpa [isPool] using hm.sound.pools
  loops := by simpa [isLoop, isShutdown] using hm.sound.loops
  bound x hx := .inr (hm.stale x hx).snoc
  pooled hpool := absurd (hm.wellFormed.gone rfl).1 hpool

/-- A process without a loop is empty already. -/
theorem Later.emptied (hm : Later i h₀ m₀ h m) (hloop : m.workerLoop = none) :
    Emptied i h₀ m₀ h m where
  sound := hm.sound
  wellFormed := by
    have hsame : { m with workerLoop := none } = m := by
      cases m
      simp_all
    rw [hsame]
    exact hm.steady.wellFormed
  pid := hm.pid
  bootstrapped := hm.bootstrapped
  running := hm.running
  pools := hm.pools
  stale x hx := (hm.steady.bound x hx).resolve_left (by simp [hloop])

/-- The pool is made by the time the process is bootstrapped. -/
structure Counted (settings : Settings) (h : List CeleryEvent) (m : Memory) : Prop where
  none_before : m.pid ∉ m.bootstrappedPids → poolsMade h = 0
  one_after : m.pid ∈ m.bootstrappedPids → settings.redisUrl ≠ none → poolsMade h ≠ 0

/-- Between two calls. -/
structure Ready (settings : Settings) (i : ℕ) (h : List CeleryEvent) (m : Memory) : Prop where
  steady : Steady i h m
  idle : m.running = none
  counted : Counted settings h m

theorem Counted.of_eq {settings : Settings} (hm : Counted settings h₀ m₀) (hpid : m.pid = m₀.pid)
    (hboot : m.bootstrappedPids = m₀.bootstrappedPids) (hpools : poolsMade h = poolsMade h₀) :
    Counted settings h m where
  none_before hmem := hpools.trans (hm.none_before (by rwa [hpid, hboot] at hmem))
  one_after hmem hurl := by
    rw [hpools]
    exact hm.one_after (by rwa [hpid, hboot] at hmem) hurl

theorem Later.ready {settings : Settings} (hm : Later i h₀ m₀ h m)
    (h₀r : Ready settings i h₀ m₀) : Ready settings i h m where
  steady := hm.steady
  idle := hm.running.trans h₀r.idle
  counted := h₀r.counted.of_eq hm.pid hm.bootstrapped hm.pools

/-- After a shutdown without an error there is no loop. -/
theorem shutdownWorkerProcess_meets {settings : Settings} (hm : Ready settings i h m) :
    Meets i (fun r h' m' => Ready settings i h' m' ∧ (r = .ok () → m'.workerLoop = none))
      shutdownWorkerProcess h m := by
  have hreset : ∀ {h' m'}, Emptied i h m h' m' →
      Meets i (fun r h' m' => Ready settings i h' m' ∧ (r = .ok () → m'.workerLoop = none))
        (ask (.writeWorkerLoop none)) h' m' := by
    intro h' m' hemptied
    refine ⟨hemptied.sound, fun _ => id, fun r t ht => ?_⟩
    cases ht
    have hpools : poolsMade (h' ++ [⟨.writeWorkerLoop none, ()⟩]) = poolsMade h := by
      simpa [isPool] using hemptied.pools
    exact ⟨hemptied.reset.sound, ⟨hemptied.reset, hemptied.running.trans hm.idle,
      hm.counted.of_eq hemptied.pid hemptied.bootstrapped hpools⟩, fun _ => rfl⟩
  refine meets_ask hm.steady.sound fun r t ht => ?_
  cases ht
  have hread : Later i h m (h ++ [⟨.readWorkerLoop, m.workerLoop⟩]) m :=
    (Later.refl hm.steady).read trivial
  generalize h ++ [⟨.readWorkerLoop, m.workerLoop⟩] = h' at hread
  cases hloop : m.workerLoop with
  | none => exact hreset (hread.emptied hloop)
  | some loop =>
    have hopen := (hm.steady.wellFormed.workerLoop loop hloop).2
    refine meets_ask hread.sound fun r t ht => ?_
    cases ht
    have hread' := hread.read (c := .isClosed loop) (r := decide (loop ∈ m.closed)) trivial
    rw [if_neg (by simpa using hopen)]
    refine (shutdownLoop_meets hread'.steady hm.idle hloop).bind (fun _ h'' m'' hemptied => ?_)
      fun e h'' m'' _ hlater => ⟨(hread'.trans hlater).ready hm, by rintro ⟨⟩⟩
    exact hreset (hemptied.of_later hread')

/-! ## The start of a process -/

theorem bindPool_meets {value : Option Handle} (hm : Steady i h m) (hloop : m.workerLoop ≠ none)
    (hnone : m.pool = none) (hvalue : ∀ pool ∈ value, m.Made i pool)
    (hmade : value ≠ none → poolsMade h ≠ 0) :
    Meets i (fun r h' m' => Later i h m h' m' ∧ r = .ok ()) (RedisCacheClient.bindPool value) h
      m := by
  have hclient : m.client = none := by
    by_contra hne
    obtain ⟨client, hclient⟩ := Option.ne_none_iff_exists'.mp hne
    cases hnone.symm.trans (hm.wellFormed.client client hclient)
  have hwf : WellFormed i { m with pool := value } :=
    { hm.wellFormed with
      pool := hvalue
      client := by
        show ∀ client ∈ m.client, _
        simp [hclient]
      connections := by
        intro x hx
        obtain ⟨hid, hxloop, hhas⟩ := hm.wellFormed.connections x hx
        refine ⟨hid, hxloop, ?_⟩
        generalize x.resource = resource at hhas ⊢
        cases resource with
        | redis pool => cases hnone.symm.trans hhas
        | mongo client => exact hhas
        | engine engine => trivial
      gone := fun hgone => absurd hgone hloop }
  refine meets_ask hm.sound fun r t ht => ?_
  cases ht
  have hbound : Steady i (h ++ [⟨.writePool value, ()⟩]) { m with pool := value } :=
    hm.snoc (native_plain trivial) rfl rfl rfl hwf rfl hm.bound hmade
  have hlater : Later i h m (h ++ [⟨.writePool value, ()⟩]) { m with pool := value } :=
    ⟨hbound, rfl, rfl, rfl, by simp [isPool], fun _ => id⟩
  refine ⟨hlater.sound, fun _ => id, fun r t ht => ?_⟩
  cases ht
  have hunbound : WellFormed i { m with pool := value, client := none } :=
    { hbound.wellFormed with client := by rintro _ ⟨⟩ }
  have hwritten := hlater.plain (c := .writeClient none) (r := ()) trivial hunbound
    ⟨rfl, rfl, rfl, rfl, List.Subset.refl _, id⟩
  exact ⟨hwritten.sound, hwritten, rfl⟩

/-- A pool is made if there has been none, and it is the only one. -/
theorem initRedis_meets (settings : Settings) (hm : Steady i h m) (hloop : m.workerLoop ≠ none)
    (hpools : poolsMade h = 0) :
    Meets i (fun r h' m' => Steady i h' m' ∧ m'.pid = m.pid ∧ m'.running = m.running ∧
        (∀ e, r = .error e → m'.bootstrappedPids = m.bootstrappedPids ∧ poolsMade h' = 0) ∧
        (r = .ok () → settings.redisUrl ≠ none → poolsMade h' ≠ 0)) (initRedis settings) h m := by
  have hnone : m.pool = none := by
    by_contra hne
    exact hm.pooled hne hpools
  cases hurl : settings.redisUrl with
  | none =>
    simp only [initRedis, hurl]
    have hvalue : ∀ pool ∈ (none : Option Handle), m.Made i pool := by rintro _ ⟨⟩
    refine (bindPool_meets hm hloop hnone hvalue (absurd rfl)).mono fun r h' m' h => ?_
    obtain ⟨hlater, hok⟩ := h
    refine ⟨hlater.steady, hlater.pid, hlater.running, fun e he => ?_, fun _ => absurd rfl⟩
    cases hok.symm.trans he
  | some url =>
    simp only [initRedis, hurl]
    refine meets_ask hm.sound fun r t ht => ?_
    cases ht with
    | @poolFromUrlError _ text =>
      have hsteady : Steady i (h ++ [⟨.poolFromUrl url, .error (.raised text)⟩]) m :=
        hm.snoc (native_of_ne (by rintro _ ⟨⟩)) rfl rfl rfl hm.wellFormed rfl hm.bound hm.pooled
      refine ⟨hsteady.sound, hsteady, rfl, rfl, fun _ _ => ⟨rfl, ?_⟩, by rintro ⟨⟩⟩
      simpa [isPool] using hpools
    | poolFromUrl =>
      have hone : poolsMade (h ++ [⟨.poolFromUrl url, .ok (m.next i)⟩]) = 1 := by
        rw [poolsMade, List.countP_append, show h.countP isPool = 0 from hpools]
        rfl
      have hsteady : Steady i (h ++ [⟨.poolFromUrl url, .ok (m.next i)⟩]) m.advance :=
        { wellFormed := hm.wellFormed.advance
          native := throughout_snoc.mpr ⟨hm.native, native_of_ne (by rintro _ ⟨⟩)⟩
          pools := hone.le
          loops := by
            simp only [loopsMade, shutdowns, List.countP_append]
            exact hm.loops
          bound := fun x hx => (hm.bound x hx).imp_right Stale.snoc
          pooled := fun _ => by simp [hone] }
      refine (bindPool_meets hsteady hloop hnone ?_ fun _ => by simp [hone]).mono
        fun r h' m' h => ?_
      · rintro _ ⟨⟩
        exact made_next m
      · obtain ⟨hlater, hok⟩ := h
        refine ⟨hlater.steady, hlater.pid, hlater.running, fun e he => ?_, fun _ _ => ?_⟩
        · cases hok.symm.trans he
        · rw [hlater.pools, hone]
          exact Nat.one_ne_zero

/-- A bootstrap that raises nothing has made the pool, if there is a URL to connect to. -/
theorem bootstrapWorker_meets {settings : Settings} (hm : Ready settings i h m) :
    Meets i (fun r h' m' => Ready settings i h' m' ∧
        (r = .ok () → settings.redisUrl ≠ none → poolsMade h' ≠ 0))
      (bootstrapWorker settings) h m := by
  refine meets_ask hm.steady.sound fun r t ht => ?_
  cases ht
  have hpid : Later i h m (h ++ [⟨.getpid, m.pid⟩]) m := (Later.refl hm.steady).read trivial
  refine meets_ask hpid.sound fun r t ht => ?_
  cases ht
  have hboot := hpid.read (c := .isBootstrapped m.pid) (r := decide (m.pid ∈ m.bootstrappedPids))
    trivial
  by_cases hmem : m.pid ∈ m.bootstrappedPids
  · rw [if_pos (by simpa using hmem)]
    refine ⟨hboot.sound, hboot.ready hm, fun _ hurl => ?_⟩
    rw [hboot.pools]
    exact hm.counted.one_after hmem hurl
  · rw [if_neg (by simpa using hmem)]
    refine meets_ask hboot.sound fun r t ht => ?_
    cases ht
    have hlogging := hboot.read (c := .configureLogging) (r := r) trivial
    cases r with
    | error e => exact ⟨hlogging.sound, hlogging.ready hm, nofun⟩
    | ok _ =>
      refine meets_ask hlogging.sound fun r t ht => ?_
      cases ht
      have htelemetry := hlogging.read (c := .setupOpentelemetry) (r := r) trivial
      cases r with
      | error e => exact ⟨htelemetry.sound, htelemetry.ready hm, nofun⟩
      | ok _ =>
        refine (getWorkerLoop_meets htelemetry.steady).bind (fun loop h₁ m₁ hpost => ?_)
          fun e h₁ m₁ _ hpost => ⟨(htelemetry.trans hpost.1).ready hm, nofun⟩
        obtain ⟨hlater, hloop⟩ := hpost
        replace hlater := htelemetry.trans hlater
        have hnone : poolsMade h₁ = 0 := hlater.pools.trans (hm.counted.none_before hmem)
        have hidle := hlater.running.trans hm.idle
        refine (initRedis_meets settings hlater.steady (by simp [hloop loop rfl]) hnone).bind
          (fun _ h₂ m₂ hpost => ?_) fun e h₂ m₂ _ hpost => ?_
        · obtain ⟨hsteady, hpid₂, hrunning, -, hmade⟩ := hpost
          refine ⟨hsteady.sound, fun _ => id, fun r t ht => ?_⟩
          cases ht
          have hwf : WellFormed i { m₂ with bootstrappedPids := m.pid :: m₂.bootstrappedPids } :=
            { hsteady.wellFormed with }
          have hadded := hsteady.plain (c := .addBootstrapped m.pid) (r := ()) trivial hwf rfl
            (List.Subset.refl _) id
          have hpools : settings.redisUrl ≠ none →
              poolsMade (h₂ ++ [⟨.addBootstrapped m.pid, ()⟩]) ≠ 0 :=
            fun hurl => pooled_append (hmade rfl hurl)
          refine ⟨hadded.sound, ⟨hadded, hrunning.trans hidle, fun hnot => ?_, fun _ => hpools⟩,
            fun _ => hpools⟩
          simp [hpid₂, hlater.pid] at hnot
        · obtain ⟨hsteady, hpid₂, hrunning, hfailed, -⟩ := hpost
          obtain ⟨hboot₂, hzero⟩ := hfailed e rfl
          refine ⟨⟨hsteady, hrunning.trans hidle, fun _ => hzero, fun hin => ?_⟩, nofun⟩
          rw [hpid₂, hboot₂, hlater.pid, hlater.bootstrapped] at hin
          exact absurd hin hmem

end rules

end BaseWebService.Celery
