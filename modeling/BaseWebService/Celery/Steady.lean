import BaseWebService.Celery.Worker

/-!
# Steady processes

What the variables of a worker process are to each other (`WellFormed`), and what is kept of the
commands that were answered in it. `Sound` holds between any two commands, and `Steady` wherever no
variable is about to be written; `Later` is how a function leaves a steady process. The rules for
programs are those of `Alone`, and the first functions they are used for are those that find the
event loop.
-/

namespace BaseWebService.Celery

open Library

/-- Everything a process holds. -/
def Memory.handles (m : Memory) : List Handle :=
  m.workerLoop.toList ++ m.pool.toList ++ (m.client.map RedisClient.pool).toList ++
    m.mongo.toList ++ m.connections.flatMap fun x => [x.id, x.loop]

def Memory.Made (i : ℕ) (m : Memory) (x : Handle) : Prop := x.process = i ∧ x.number < m.made

/-- The resource is the one that the class variables name. -/
def Memory.Has (m : Memory) : Resource → Prop
  | .redis pool => m.pool = some pool
  | .mongo client => m.mongo = some client
  | .engine _ => True

/-- What the variables of a process are to each other. -/
structure WellFormed (i : ℕ) (m : Memory) : Prop where
  workerLoop : ∀ loop ∈ m.workerLoop, m.Made i loop ∧ loop ∉ m.closed
  closed : ∀ loop ∈ m.closed, m.Made i loop
  pool : ∀ pool ∈ m.pool, m.Made i pool
  client : ∀ client ∈ m.client, m.pool = some client.pool
  mongo : ∀ client ∈ m.mongo, m.Made i client
  connections : ∀ x ∈ m.connections, m.Made i x.id ∧ m.Made i x.loop ∧ m.Has x.resource
  running : ∀ loop ∈ m.running, m.workerLoop = some loop
  gone : m.workerLoop = none → m.pool = none ∧ m.mongo = none

section memory
variable {i : ℕ} {m : Memory}

theorem made_next (m : Memory) : m.advance.Made i (m.next i) := ⟨rfl, Nat.lt_succ_self _⟩

theorem Memory.Made.advance {x : Handle} (hx : m.Made i x) : m.advance.Made i x :=
  ⟨hx.1, Nat.lt_succ_of_lt hx.2⟩

/-- All that a process holds, it has made itself. -/
theorem WellFormed.handles (hm : WellFormed i m) : ∀ x ∈ m.handles, m.Made i x := by
  intro x hx
  simp only [Memory.handles, List.mem_append, Option.mem_toList,
    Option.map_eq_some_iff, List.mem_flatMap, List.mem_cons, List.not_mem_nil, or_false] at hx
  rcases hx with (((hx | hx) | ⟨client, hclient, rfl⟩) | hx) | ⟨y, hy, rfl | rfl⟩
  · exact (hm.workerLoop x hx).1
  · exact hm.pool x hx
  · exact hm.pool _ (hm.client client hclient)
  · exact hm.mongo x hx
  · exact (hm.connections y hy).1
  · exact (hm.connections y hy).2.1

theorem WellFormed.keep (hm : WellFormed i m) {kept : List Connection}
    (hkept : kept ⊆ m.connections) : WellFormed i (m.keep kept) :=
  { hm with connections := fun x hx => hm.connections x (hkept hx) }

theorem WellFormed.advance (hm : WellFormed i m) : WellFormed i m.advance where
  workerLoop loop hloop := (hm.workerLoop loop hloop).imp_left Memory.Made.advance
  closed loop hloop := (hm.closed loop hloop).advance
  pool pool hpool := (hm.pool pool hpool).advance
  client := hm.client
  mongo client hclient := (hm.mongo client hclient).advance
  connections x hx := by
    obtain ⟨hid, hloop, hhas⟩ := hm.connections x hx
    exact ⟨hid.advance, hloop.advance, hhas⟩
  running := hm.running
  gone := hm.gone

/-- What is made next is none of the loops that have been closed. -/
theorem WellFormed.next_not_mem (hm : WellFormed i m) : m.next i ∉ m.closed :=
  fun hmem => absurd (hm.closed _ hmem).2 (lt_irrefl _)

end memory

/-! ## The records of a process -/

/-- A connection of an engine that could not be disposed of. -/
def Stale (h : List CeleryEvent) (x : Connection) : Prop :=
  ∃ engine e, x.resource = .engine engine ∧ ⟨.dispose engine, .error e⟩ ∈ h

/-- The connection belongs to the loop that it is used on. -/
def Native (past : List CeleryEvent) (e : CeleryEvent) : Prop :=
  ∀ resource loop x, e = ⟨.connect resource, .ok (loop, x)⟩ → x.loop = loop ∨ Stale past x

def isPool : CeleryEvent → Bool
  | ⟨.poolFromUrl _, .ok _⟩ => true
  | _ => false

def isLoop : CeleryEvent → Bool
  | ⟨.newEventLoop, .ok _⟩ => true
  | _ => false

/-- `_WORKER_LOOP` is set to `None` at the end of a shutdown, and nowhere else. -/
def isShutdown : CeleryEvent → Bool
  | ⟨.writeWorkerLoop none, _⟩ => true
  | _ => false

abbrev poolsMade (h : List CeleryEvent) : ℕ := h.countP isPool
abbrev loopsMade (h : List CeleryEvent) : ℕ := h.countP isLoop
abbrev shutdowns (h : List CeleryEvent) : ℕ := h.countP isShutdown

structure Sound (i : ℕ) (h : List CeleryEvent) (m : Memory) : Prop where
  own : ∀ x ∈ m.handles, m.Made i x
  native : Throughout Native h
  pools : poolsMade h ≤ 1
  loops : loopsMade h ≤ shutdowns h + 1

structure Steady (i : ℕ) (h : List CeleryEvent) (m : Memory) : Prop where
  wellFormed : WellFormed i m
  native : Throughout Native h
  pools : poolsMade h ≤ 1
  loops : loopsMade h ≤ shutdowns h + if m.workerLoop = none then 0 else 1
  bound : ∀ x ∈ m.connections, m.workerLoop = some x.loop ∨ Stale h x
  pooled : m.pool ≠ none → poolsMade h ≠ 0

/-- A process is steady, and where it was before, as far as other functions see. -/
structure Later (i : ℕ) (h₀ : List CeleryEvent) (m₀ : Memory) (h : List CeleryEvent)
    (m : Memory) : Prop where
  steady : Steady i h m
  pid : m.pid = m₀.pid
  bootstrapped : m.bootstrappedPids = m₀.bootstrappedPids
  running : m.running = m₀.running
  pools : poolsMade h = poolsMade h₀
  workerLoop : ∀ loop, m₀.workerLoop = some loop → m.workerLoop = some loop

section rules
variable {i : ℕ} {h h₀ h₁ : List CeleryEvent} {m m₀ m₁ t : Memory} {c : Command} {r : c.Reply}
  {α : Type}

theorem Later.refl (hm : Steady i h m) : Later i h m h m :=
  ⟨hm, rfl, rfl, rfl, rfl, fun _ => id⟩

theorem Later.trans (h01 : Later i h₀ m₀ h₁ m₁) (h12 : Later i h₁ m₁ h m) :
    Later i h₀ m₀ h m where
  steady := h12.steady
  pid := h12.pid.trans h01.pid
  bootstrapped := h12.bootstrapped.trans h01.bootstrapped
  running := h12.running.trans h01.running
  pools := h12.pools.trans h01.pools
  workerLoop := fun loop hloop => h12.workerLoop loop (h01.workerLoop loop hloop)

theorem Steady.sound (hm : Steady i h m) : Sound i h m where
  own := hm.wellFormed.handles
  native := hm.native
  pools := hm.pools
  loops := hm.loops.trans (by split <;> omega)

theorem Later.sound (hm : Later i h₀ m₀ h m) : Sound i h m := hm.steady.sound

theorem Stale.snoc {x : Connection} {e : CeleryEvent} (hx : Stale h x) : Stale (h ++ [e]) x := by
  obtain ⟨engine, failure, hresource, hmem⟩ := hx
  exact ⟨engine, failure, hresource, List.mem_append_left _ hmem⟩

theorem pooled_append (hpool : poolsMade h ≠ 0) : poolsMade (h ++ h₁) ≠ 0 := by
  simp only [poolsMade, List.countP_append] at *
  omega

/-- The commands that no count is kept of. -/
def Command.Plain : Command → Prop
  | .newEventLoop | .writeWorkerLoop _ | .poolFromUrl _ | .connect _ => False
  | _ => True

theorem isPool_plain (hc : c.Plain) : isPool ⟨c, r⟩ = false := by
  cases c <;> first | rfl | exact hc.elim

theorem isLoop_plain (hc : c.Plain) : isLoop ⟨c, r⟩ = false := by
  cases c <;> first | rfl | exact hc.elim

theorem isShutdown_plain (hc : c.Plain) : isShutdown ⟨c, r⟩ = false := by
  cases c <;> first | rfl | exact hc.elim

theorem native_of_ne (hc : ∀ resource, c ≠ .connect resource) : Native h ⟨c, r⟩ := by
  intro resource loop x heq
  cases heq
  exact absurd rfl (hc resource)

theorem native_plain (hc : c.Plain) : Native h ⟨c, r⟩ := by
  apply native_of_ne
  rintro resource rfl
  exact hc

/-- An event that no count is kept of keeps a process steady. -/
theorem Steady.snoc (hm : Steady i h m) {e : CeleryEvent} (hnative : Native h e)
    (hpool : isPool e = false) (hloop : isLoop e = false) (hshutdown : isShutdown e = false)
    (ht : WellFormed i t) (hworkerLoop : t.workerLoop = m.workerLoop)
    (hbound : ∀ x ∈ t.connections, m.workerLoop = some x.loop ∨ Stale h x)
    (hpooled : t.pool ≠ none → poolsMade h ≠ 0) : Steady i (h ++ [e]) t where
  wellFormed := ht
  native := throughout_snoc.mpr ⟨hm.native, hnative⟩
  pools := by simpa [hpool] using hm.pools
  loops := by simpa [hloop, hshutdown, hworkerLoop] using hm.loops
  bound x hx := by
    rw [hworkerLoop]
    exact (hbound x hx).imp_right Stale.snoc
  pooled hpool := pooled_append (hpooled hpool)

/-- Commands that make neither a loop nor a pool keep a process steady. -/
theorem Steady.plain (hm : Steady i h m) (hc : c.Plain) (ht : WellFormed i t)
    (hworkerLoop : t.workerLoop = m.workerLoop) (hconnections : t.connections ⊆ m.connections)
    (hpooled : t.pool ≠ none → m.pool ≠ none) : Steady i (h ++ [⟨c, r⟩]) t :=
  hm.snoc (native_plain hc) (isPool_plain hc) (isLoop_plain hc) (isShutdown_plain hc) ht
    hworkerLoop (fun x hx => hm.bound x (hconnections hx)) fun hpool => hm.pooled (hpooled hpool)

/-- Nothing has changed that other functions see; connections may have been closed. -/
structure Alike (m t : Memory) : Prop where
  pid : t.pid = m.pid
  bootstrapped : t.bootstrappedPids = m.bootstrappedPids
  workerLoop : t.workerLoop = m.workerLoop
  running : t.running = m.running
  connections : t.connections ⊆ m.connections
  pooled : t.pool ≠ none → m.pool ≠ none

theorem Later.plain (hm : Later i h₀ m₀ h m) (hc : c.Plain) (ht : WellFormed i t)
    (hmt : Alike m t) : Later i h₀ m₀ (h ++ [⟨c, r⟩]) t where
  steady := hm.steady.plain hc ht hmt.workerLoop hmt.connections hmt.pooled
  pid := hmt.pid.trans hm.pid
  bootstrapped := hmt.bootstrapped.trans hm.bootstrapped
  running := hmt.running.trans hm.running
  pools := by simpa [isPool_plain hc] using hm.pools
  workerLoop loop hloop := hmt.workerLoop.trans (hm.workerLoop loop hloop)

theorem Later.read (hm : Later i h₀ m₀ h m) (hc : c.Plain) : Later i h₀ m₀ (h ++ [⟨c, r⟩]) m :=
  hm.plain hc hm.steady.wellFormed ⟨rfl, rfl, rfl, rfl, List.Subset.refl _, id⟩

theorem Later.keep (hm : Later i h₀ m₀ h m) (hc : c.Plain) {kept : List Connection}
    (hkept : kept ⊆ m.connections) : Later i h₀ m₀ (h ++ [⟨c, r⟩]) (m.keep kept) :=
  hm.plain hc (hm.steady.wellFormed.keep hkept) ⟨rfl, rfl, rfl, rfl, hkept, id⟩

theorem Later.drop (hm : Later i h₀ m₀ h m) (hc : c.Plain) (resource : Resource) :
    Later i h₀ m₀ (h ++ [⟨c, r⟩]) (m.drop resource) :=
  hm.keep hc (List.filter_subset_self _)

/-! ## Rules for programs -/

abbrev Meets (i : ℕ) (Q : Except Failure α → List CeleryEvent → Memory → Prop) (p : M α)
    (h : List CeleryEvent) (m : Memory) : Prop :=
  Alone kernel (Sound i) i Q p h m

theorem meets_ask {Q : Except Failure α → List CeleryEvent → Memory → Prop} {k : c.Reply → M α}
    (hm : Sound i h m)
    (hk : ∀ r t, m.Answer i c r t → Meets i Q (k r) (h ++ [⟨c, r⟩]) t) :
    Meets i Q (ask c >>= k) h m :=
  ⟨hm, fun _ => id, hk⟩

theorem meets_orRaise {Q : Except Failure α → List CeleryEvent → Memory → Prop}
    {r : Except Failure α} (hm : Sound i h m) (hQ : Q r h m) : Meets i Q (orRaise r) h m := by
  cases r with
  | ok a => exact ⟨hm, hQ⟩
  | error e => exact ⟨hm, hQ⟩

/-- What is caught has left the process as it would have otherwise. -/
theorem Meets.attempt {P : Except Failure α → List CeleryEvent → Memory → Prop} {p : M α}
    (hp : Meets i P p h m) :
    Meets i (fun r h m => ∃ r', r = .ok r' ∧ P r' h m) (p.attempt : M (Except Failure α)) h m := by
  induction p generalizing h m with
  | ret a => exact ⟨hp.1, .ok a, rfl, hp.2⟩
  | raise e => exact ⟨hp.1, .error e, rfl, hp.2⟩
  | call c k ih => exact ⟨hp.1, hp.2.1, fun r t ht => ih r (hp.2.2 r t ht)⟩

/-! ## The event loop -/

/-- How a function leaves a process when nothing that others see has changed. -/
abbrev Leaves (i : ℕ) (h₀ : List CeleryEvent) (m₀ : Memory) :
    Except Failure α → List CeleryEvent → Memory → Prop :=
  fun _ h m => Later i h₀ m₀ h m

/-- How a function leaves a process that has a loop. -/
def HasLoop (i : ℕ) (h₀ : List CeleryEvent) (m₀ : Memory) (r : Except Failure Handle)
    (h : List CeleryEvent) (m : Memory) : Prop :=
  Later i h₀ m₀ h m ∧ ∀ loop, r = .ok loop → m.workerLoop = some loop

/-- A loop is made only where there is none. -/
theorem makeWorkerLoop_meets (hm : Steady i h m) (hnone : m.workerLoop = none) :
    Meets i (HasLoop i h m) makeWorkerLoop h m := by
  have hloops := hm.loops
  rw [if_pos hnone, Nat.add_zero] at hloops
  have hidle : m.running = none := by
    by_contra hne
    obtain ⟨loop, hloop⟩ := Option.ne_none_iff_exists'.mp hne
    simp [hm.wellFormed.running loop hloop] at hnone
  refine meets_ask hm.sound fun r t ht => ?_
  have hnative : Throughout Native (h ++ [⟨.newEventLoop, r⟩]) :=
    throughout_snoc.mpr ⟨hm.native, native_of_ne nofun⟩
  cases ht with
  | newEventLoopError =>
    have hsteady : Steady i (h ++ [⟨.newEventLoop, .error (.raised _)⟩]) m :=
      { wellFormed := hm.wellFormed
        native := hnative
        pools := by simpa [isPool] using hm.pools
        loops := by simpa [isLoop, isShutdown] using hm.loops
        bound := fun x hx => (hm.bound x hx).imp_right Stale.snoc
        pooled := fun hpool => pooled_append (hm.pooled hpool) }
    exact ⟨hsteady.sound, ⟨hsteady, rfl, rfl, rfl, by simp [isPool], fun _ => id⟩, nofun⟩
  | newEventLoop =>
    refine meets_ask ⟨hm.wellFormed.advance.handles, hnative, ?_, ?_⟩ fun r t ht => ?_
    · simpa [isPool] using hm.pools
    · simpa [isLoop, isShutdown] using hloops
    cases ht with
    | writeWorkerLoop =>
      have hwf := hm.wellFormed.advance
      have hsteady : Steady i (h ++ [⟨.newEventLoop, .ok (m.next i)⟩] ++
          [⟨.writeWorkerLoop (some (m.next i)), ()⟩])
          { m.advance with workerLoop := some (m.next i) } :=
        { wellFormed :=
            { hwf with
              workerLoop := by
                rintro _ ⟨⟩
                exact ⟨made_next m, hm.wellFormed.next_not_mem⟩
              running := by
                show ∀ loop ∈ m.running, _
                simp [hidle]
              gone := nofun }
          native := throughout_snoc.mpr ⟨hnative, native_of_ne nofun⟩
          pools := by simpa [isPool] using hm.pools
          loops := by simpa [isLoop, isShutdown, List.countP_cons] using hloops
          bound := fun x hx => by
            rcases hm.bound x hx with hloop | hstale
            · simp [hnone] at hloop
            · exact .inr hstale.snoc.snoc
          pooled := fun hpool => pooled_append (pooled_append (hm.pooled hpool)) }
      refine ⟨hsteady.sound, ⟨hsteady, rfl, rfl, rfl, by simp [isPool], ?_⟩, ?_⟩
      · simp [hnone]
      · rintro _ ⟨⟩
        rfl

/-- The loop that is returned is open, and stays the process's loop. -/
theorem getWorkerLoop_meets (hm : Steady i h m) :
    Meets i (HasLoop i h m) getWorkerLoop h m := by
  refine meets_ask hm.sound fun r t ht => ?_
  cases ht
  have hread : Later i h m (h ++ [⟨.readWorkerLoop, m.workerLoop⟩]) m :=
    (Later.refl hm).read trivial
  generalize hh : h ++ [⟨.readWorkerLoop, m.workerLoop⟩] = h' at hread
  cases hloop : m.workerLoop with
  | none =>
    refine (makeWorkerLoop_meets hread.steady hloop).mono fun r h'' m'' hlater => ?_
    exact ⟨hread.trans hlater.1, hlater.2⟩
  | some loop =>
    have hopen := (hm.wellFormed.workerLoop loop hloop).2
    refine meets_ask hread.sound fun r t ht => ?_
    cases ht
    have hread' := hread.read (c := .isClosed loop) (r := decide (loop ∈ m.closed)) trivial
    rw [if_neg (by simpa using hopen)]
    refine ⟨hread'.sound, hread', ?_⟩
    rintro _ ⟨⟩
    exact hloop

end rules

end BaseWebService.Celery
