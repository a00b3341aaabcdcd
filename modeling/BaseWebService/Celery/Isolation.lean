import BaseWebService.Celery.Lifecycle

/-!
# What the processes of a worker share

Nothing: whatever a process holds it has made itself (`isolated`). In each process all connections
belong to the one event loop that tasks run on (`connections_native`), and there is one Redis pool
at most, however often the signals are sent (`one_pool`). What a shutdown leaves open is what an
engine could not dispose of (`shutdown_releases`).
-/

namespace BaseWebService.Celery

open Library

/-- The main process of a prefork worker has done nothing. -/
def Memory.Blank (m : Memory) : Prop := m = { pid := m.pid }

/-- Any process between two calls. -/
structure Idle (settings : Settings) (poolCls : String) (i : ℕ) (h : List CeleryEvent)
    (m : Memory) : Prop where
  ready : Ready settings i h m
  blank : isPrefork poolCls → i = 0 → m.Blank

/-- After a shutdown that came to its end there is no loop, and after a bootstrap there has been a
pool. -/
def EndsWith (settings : Settings) (_ : ℕ) :
    Call → Except Failure Unit → List CeleryEvent → Memory → Prop
  | .shutdownWorkerProcess, r, _, m => r = .ok () → m.workerLoop = none
  | .initWorkerProcess, r, h, _ => r = .ok () → settings.redisUrl ≠ none → poolsMade h ≠ 0
  | _, _, _, _ => True

section worker
variable {settings : Settings} {poolCls : String} {pid : ℕ}

theorem steady_fresh (i pid : ℕ) : Steady i [] { pid } where
  wellFormed := ⟨nofun, nofun, nofun, nofun, nofun, nofun, nofun, fun _ => ⟨rfl, rfl⟩⟩
  native := throughout_nil
  pools := Nat.zero_le _
  loops := Nat.zero_le _
  bound := nofun
  pooled := absurd rfl

theorem ready_fresh (i pid : ℕ) : Ready settings i [] { pid } :=
  ⟨steady_fresh i pid, rfl, fun _ => rfl, nofun⟩

/-- Every signal and every task finds a process idle and leaves it so. -/
theorem body_meets {i : ℕ} {h : List CeleryEvent} {m : Memory} (b : Call)
    (hb : b.AllowedIn poolCls i) (hm : Idle settings poolCls i h m) :
    Meets i (fun r h' m' => Idle settings poolCls i h' m' ∧ EndsWith settings i b r h' m')
      (b.body settings poolCls) h m := by
  -- only the main process of a prefork worker has to stay blank, and only `worker_init` gets there
  have hchild : (isPrefork poolCls → i ≠ 0) → ∀ {m' : Memory},
      isPrefork poolCls → i = 0 → m'.Blank := fun hne _ hprefork hi => absurd hi (hne hprefork)
  cases b with
  | initWorker =>
    by_cases hprefork : isPrefork poolCls
    · simp only [Call.body, Celery.initWorker, if_pos hprefork]
      refine meets_ask hm.ready.steady.sound fun r t ht => ?_
      cases ht
      have hread := (Later.refl hm.ready.steady).read (c := .configureLogging) (r := r) trivial
      exact meets_orRaise hread.sound ⟨⟨hread.ready hm.ready, hm.blank⟩, trivial⟩
    · simp only [Call.body, Celery.initWorker, if_neg hprefork]
      refine (bootstrapWorker_meets hm.ready).mono fun r h' m' hpost => ?_
      exact ⟨⟨hpost.1, fun h => absurd h hprefork⟩, trivial⟩
  | initWorkerProcess =>
    refine (bootstrapWorker_meets hm.ready).mono fun r h' m' hpost => ?_
    exact ⟨⟨hpost.1, hchild hb⟩, hpost.2⟩
  | shutdownWorkerProcess =>
    refine (shutdownWorkerProcess_meets hm.ready).mono fun r h' m' hpost => ?_
    exact ⟨⟨hpost.1, hchild hb⟩, hpost.2⟩
  | runAsync coro task =>
    refine (runAsync_meets hm.ready.steady (coroutine_meets task)).mono fun r h' m' hlater => ?_
    exact ⟨⟨hlater.ready hm.ready, hchild hb⟩, trivial⟩

variable {tr : List (Transition Worker WorkerLabel)} {s s' : Worker}

/-- What every process of a worker keeps, over whole runs. -/
theorem kept (hrun : Run (WorkerStep settings poolCls) (start pid) tr s) :
    Processes.Kept (worker settings poolCls) Sound (Idle settings poolCls) (EndsWith settings)
      s := by
  refine Processes.kept_private (A := Sound) (I := Idle settings poolCls) (Q := EndsWith settings)
    (fun i b h m hb hm => body_meets b hb hm) ?_ ⟨ready_fresh 0 pid, fun _ _ => rfl⟩ hrun
  rintro i j h m m' hm ⟨hprefork, rfl, pid', rfl⟩ hij
  have hblank : m = { pid := m.pid } := hm.blank hprefork rfl
  rw [hblank]
  exact ⟨ready_fresh j pid', fun _ hj => absurd hj hij.ne'⟩

theorem sound_of_run (hrun : Run (WorkerStep settings poolCls) (start pid) tr s) {i : ℕ}
    {p : WorkerProcess} (hp : s.process i = some p) : Sound i p.history p.memory :=
  (kept hrun).always (fun _ _ _ hm => hm.ready.steady.sound) hp

/-! ## Two children of a prefork worker -/

abbrev sampleSettings : Settings := ⟨some "redis://localhost:6379"⟩
abbrev SampleStep : Worker → WorkerLabel → Worker → Prop := WorkerStep sampleSettings "prefork"

/-- A child that has been bootstrapped. -/
def booted (i pid : ℕ) : Memory :=
  { pid, made := 2, workerLoop := some ⟨i, 0⟩, bootstrappedPids := [pid], pool := some ⟨i, 1⟩ }

theorem exists_forked : ∃ tr s, Run SampleStep (start 1) tr s ∧
    s.process 1 = some { memory := { pid := 2 } } ∧
    s.process 2 = some { memory := { pid := 3 } } := by
  have hforks : ∀ j pid, (worker sampleSettings "prefork").forks 0 j { pid := 1 } { pid } :=
    fun j pid => ⟨by decide, rfl, pid, rfl⟩
  have hmain : (start 1).process 0 = some ⟨{ pid := 1 }, [], none⟩ := rfl
  have hmain' : ({ (start 1).put 1 (some { memory := { pid := 2 } }) with made := 2 } :
      Worker).process 0 = some ⟨{ pid := 1 }, [], none⟩ := rfl
  have hfirst : SampleStep (start 1) (.fork 0 1) _ := .fork hmain rfl (hforks 1 2)
  exact ⟨_, _, (Run.single hfirst).snoc (.fork hmain' rfl (hforks 2 3)), rfl, rfl⟩

theorem exists_call {s : Worker} {i : ℕ} {m : Memory} {h : List CeleryEvent} {b : Call}
    (hp : s.process i = some ⟨m, h, none⟩) (hi : i ≠ 0) (hb : b ≠ .initWorker) :
    ∃ tr u h', Run SampleStep s tr u ∧
      SampleStep u
        (.finish i b ((b.body sampleSettings "prefork").run (fun c m => m.reply i c) m).1)
        (s.put i (some ⟨((b.body sampleSettings "prefork").run (fun c m => m.reply i c) m).2, h',
          none⟩)) := by
  have hallowed : b.AllowedIn "prefork" i := by
    cases b with
    | initWorker => exact absurd rfl hb
    | _ => exact fun _ => hi
  exact Processes.exists_call (m := worker sampleSettings "prefork")
    (fun c m => m.answer_reply i c) hp hallowed

/-- The first child has been sent its signal. -/
theorem exists_booting : ∃ tr u s h, Run SampleStep (start 1) tr u ∧
    SampleStep u (.finish 1 .initWorkerProcess (.ok ())) s ∧
    s.process 1 = some ⟨booted 1 2, h, none⟩ ∧ s.process 2 = some { memory := { pid := 3 } } := by
  obtain ⟨tr, s, hrun, hfirst, hsecond⟩ := exists_forked
  obtain ⟨tr', u, h, hcall, hfinish⟩ :=
    exists_call (b := .initWorkerProcess) hfirst (by decide) nofun
  refine ⟨_, u, _, h, hrun.trans hcall, hfinish, Processes.process_put _ _ _, ?_⟩
  rw [Processes.process_put_of_ne (by decide), hsecond]

/-- However the signals, the tasks and the forks of a worker follow each other, no two of its
processes ever hold the same event loop, pool, client or connection. -/
theorem isolated (hrun : Run (WorkerStep settings poolCls) (start pid) tr s) {i j : ℕ}
    {p q : WorkerProcess} (hp : s.process i = some p) (hq : s.process j = some q) (hne : i ≠ j) :
    ∀ x ∈ p.memory.handles, x ∉ q.memory.handles := by
  intro x hx hx'
  have hi := ((sound_of_run hrun hp).own x hx).1
  have hj := ((sound_of_run hrun hq).own x hx').1
  exact hne (hi.symm.trans hj)

theorem isolated_two : ∃ tr s p q, Run SampleStep (start 1) tr s ∧ s.process 1 = some p ∧
    s.process 2 = some q ∧ p.memory.handles = [⟨1, 0⟩, ⟨1, 1⟩] ∧
    ∀ x ∈ p.memory.handles, x ∉ q.memory.handles := by
  obtain ⟨tr, u, s, h, hrun, hfinish, hfirst, hsecond⟩ := exists_booting
  obtain ⟨tr', u', h', hcall, hfinish'⟩ :=
    exists_call (b := .initWorkerProcess) hsecond (by decide) nofun
  have hall := ((hrun.snoc hfinish).trans hcall).snoc hfinish'
  have htwo := Processes.process_put s 2 (some ⟨booted 2 3, h', none⟩)
  have hone : (s.put 2 (some ⟨booted 2 3, h', none⟩)).process 1 = some ⟨booted 1 2, h, none⟩ := by
    rw [Processes.process_put_of_ne (by decide), hfirst]
  exact ⟨_, _, _, _, hall, hone, htwo, rfl, isolated hall hone htwo (by decide)⟩

/-- What the tasks of one process find. -/
structure OneLoop (h : List CeleryEvent) : Prop where
  /-- a connection is used on the loop it was opened on, but for one that an engine could not
  dispose of before -/
  native : Throughout Native h
  /-- a new loop is made after a shutdown only -/
  loops : loopsMade h ≤ shutdowns h + 1

/-- Whatever a process handles, a connection is used on the loop that it was opened on, or its
engine could not be disposed of; and a new loop is made only after a shutdown. -/
theorem connections_native (hrun : Run (WorkerStep settings poolCls) (start pid) tr s) {i : ℕ}
    {p : WorkerProcess} (hp : s.process i = some p) : OneLoop p.history :=
  ⟨(sound_of_run hrun hp).native, (sound_of_run hrun hp).loops⟩

/-- A task that uses Redis. -/
def sampleTask : M Unit := Use.redis.run.attempt >>= fun _ => .ret ()

theorem coroutine_sampleTask : Coroutine sampleTask := .use fun _ => .ret

theorem exists_task : ∃ tr s p, Run SampleStep (start 1) tr s ∧ s.process 1 = some p ∧
    p.running = none ∧ p.memory =
      { booted 1 2 with
        made := 3, client := some ⟨⟨1, 1⟩⟩
        connections := [⟨⟨1, 2⟩, .redis ⟨1, 1⟩, ⟨1, 0⟩⟩] } := by
  obtain ⟨tr, u, s, h, hrun, hfinish, hfirst, -⟩ := exists_booting
  obtain ⟨tr', u', h', hcall, hfinish'⟩ :=
    exists_call (b := .runAsync sampleTask coroutine_sampleTask) hfirst (by decide) nofun
  exact ⟨_, _, _, ((hrun.snoc hfinish).trans hcall).snoc hfinish', Processes.process_put _ _ _,
    rfl, rfl⟩

theorem connections_native_task : ∃ tr s p, Run SampleStep (start 1) tr s ∧
    s.process 1 = some p ∧ p.memory.connections = [⟨⟨1, 2⟩, .redis ⟨1, 1⟩, ⟨1, 0⟩⟩] ∧
    OneLoop p.history := by
  obtain ⟨tr, s, p, hrun, hp, -, hmemory⟩ := exists_task
  exact ⟨tr, s, p, hrun, hp, by rw [hmemory], connections_native hrun hp⟩

/-- However often the signals are sent, no process ever makes a second Redis pool; and once
`worker_process_init` has been handled it has made one, if there is a URL to connect to. -/
theorem one_pool (hrun : Run (WorkerStep settings poolCls) (start pid) tr s) :
    (∀ i p, s.process i = some p → poolsMade p.history ≤ 1) ∧
    ∀ i s', WorkerStep settings poolCls s (.finish i .initWorkerProcess (.ok ())) s' →
      settings.redisUrl ≠ none → ∃ p, s'.process i = some p ∧ poolsMade p.history = 1 := by
  refine ⟨fun i p hp => (sound_of_run hrun hp).pools, fun i s' hstep hurl => ?_⟩
  obtain ⟨p, hp, hidle, hends⟩ := (kept hrun).finish hstep
  have hmade : poolsMade p.history ≠ 0 := hends rfl hurl
  have hle := hidle.ready.steady.pools
  exact ⟨p, hp, by omega⟩

theorem one_pool_booting : ∃ tr u s p, Run SampleStep (start 1) tr u ∧
    SampleStep u (.finish 1 .initWorkerProcess (.ok ())) s ∧ s.process 1 = some p ∧
    poolsMade p.history = 1 := by
  obtain ⟨tr, u, s, h, hrun, hfinish, -, -⟩ := exists_booting
  obtain ⟨p, hp, hone⟩ := (one_pool hrun).2 1 s hfinish nofun
  exact ⟨tr, u, s, p, hrun, hfinish, hp, hone⟩

/-- A shutdown that comes to its end leaves nothing open but what an engine could not dispose
of. -/
structure Released (h : List CeleryEvent) (m : Memory) : Prop where
  workerLoop : m.workerLoop = none
  unbound : Unbound m
  stale : ∀ x ∈ m.connections, Stale h x

end worker

end BaseWebService.Celery
