import BaseWebService.SystemLog.Mongo

/-!
# One client between two resets

Nothing that runs while the lock is held makes a task wait, so a task that is given the lock gives
it back before any other one runs, and no task ever waits for it, not even for a lock that `reset`
has thrown away. So every call runs as if it were alone, and what it keeps is read off its commands
one by one. An epoch ends where a call of `reset` or `close` does; inside such a call the client
variable is emptied, and `Agrees` follows both until they meet again.

## Main results

* `getClient_alone`, `getCollection_alone`, `reset_alone`, `close_alone` : each call by itself.
* `undisturbed` : every run of the event loop is made of such calls.
* `client_consistent` : one client between two resets, which `get_client` returns and to which every
  cached collection belongs.
-/

namespace BaseWebService.SystemLog

open Library

/-! ## Epochs -/

/-- The assignment that empties the client variable. -/
def IsReset : MongoEvent → Prop
  | ⟨.writeInstance none, _⟩ => True
  | _ => False

/-- The client that was made. -/
def created? : MongoEvent → Option Client
  | ⟨.newClient _, .ok client⟩ => some client
  | _ => none

/-- The clients made before the last epoch has ended, and since then. -/
structure Epochs where
  earlier : List Client := []
  sinceReset : List Client := []

def Epochs.after (epochs : Epochs) : MongoEvent → Epochs
  | ⟨.writeInstance none, _⟩ => ⟨epochs.earlier ++ epochs.sinceReset, []⟩
  | ⟨.newClient _, .ok client⟩ => ⟨epochs.earlier, epochs.sinceReset ++ [client]⟩
  | _ => epochs

def epochs (h : List MongoEvent) : Epochs := h.foldl Epochs.after {}

@[simp] theorem epochs_snoc (h : List MongoEvent) (e : MongoEvent) :
    epochs (h ++ [e]) = (epochs h).after e := by
  simp [epochs]

/-- Neither a reset nor a new client. -/
def Quiet (e : MongoEvent) : Prop := ¬ IsReset e ∧ created? e = none

theorem Epochs.after_quiet {e : MongoEvent} (h : Quiet e) (epochs : Epochs) :
    epochs.after e = epochs := by
  obtain ⟨hreset, hcreated⟩ := h
  unfold Epochs.after
  split <;> simp_all [IsReset, created?]

/-! ## Invariants -/

variable {h : List MongoEvent} {s t : MongoStore} {i : ℕ}

/-- A client is made only when there has been none since the last reset. -/
def OncePerEpoch (h : List MongoEvent) : Prop :=
  Throughout (fun past e => (created? e).isSome → (epochs past).sinceReset = []) h

theorem OncePerEpoch.quiet {e : MongoEvent} (hh : OncePerEpoch h) (he : Quiet e) :
    OncePerEpoch (h ++ [e]) :=
  throughout_snoc.mpr ⟨hh, by simp [he.2]⟩

theorem OncePerEpoch.length_le_one (hh : OncePerEpoch h) : (epochs h).sinceReset.length ≤ 1 := by
  induction h using List.reverseRecOn with
  | nil => simp [epochs]
  | append_singleton h e ih =>
    obtain ⟨hh, he⟩ := throughout_snoc.mp hh
    have ih := ih hh
    rw [epochs_snoc]
    unfold Epochs.after
    split
    · simp
    · simp [he rfl]
    · exact ih

/-- Every cached collection is the current client's, under its own key. -/
def Cached (s : MongoStore) : Prop :=
  ∀ entry ∈ s.collections, ∃ instance', s.current = some instance' ∧
    entry.2 = ⟨instance'.client, entry.1.1, entry.1.2⟩

/-- What holds before each command of `get_client` and `_get_collection`. -/
structure Consistent (h : List MongoEvent) (s : MongoStore) : Prop where
  once : OncePerEpoch h
  known : ∀ instance', s.current = some instance' → instance'.client ∈ (epochs h).sinceReset
  cached : Cached s

/-- What holds whenever the client variable agrees with the history. -/
structure Sound (h : List MongoEvent) (s : MongoStore) : Prop extends Consistent h s where
  current : (epochs h).sinceReset = (s.current.map Instance.client).toList
  made : ∀ client ∈ (epochs h).earlier ++ (epochs h).sinceReset, client < s.clientCount
  apart : ∀ client ∈ (epochs h).sinceReset, client ∉ (epochs h).earlier

/-- A command that neither makes a client nor writes a variable the invariant speaks of. -/
def Command.IsQuiet : Command → Prop
  | .writeInstance _ | .newClient _ | .writeCollection .. | .clearCollections => False
  | _ => True

/-- What a quiet command leaves as it was. -/
theorem MongoStore.Answer.frame {c : Command} {r : c.Reply} (hc : c.IsQuiet)
    (hanswer : s.Answer c r t) : Quiet ⟨c, r⟩ ∧ t.current = s.current ∧
      t.collections = s.collections ∧ t.clientCount = s.clientCount := by
  cases hanswer <;>
    first
    | exact absurd hc id
    | exact ⟨⟨id, rfl⟩, rfl, rfl, rfl⟩

theorem Sound.of_current (honce : OncePerEpoch h) (hcached : Cached s)
    (hcurrent : (epochs h).sinceReset = (s.current.map Instance.client).toList)
    (hmade : ∀ client ∈ (epochs h).earlier ++ (epochs h).sinceReset, client < s.clientCount)
    (hapart : ∀ client ∈ (epochs h).sinceReset, client ∉ (epochs h).earlier) : Sound h s :=
  ⟨⟨honce, fun instance' h' => by simp [hcurrent, h'], hcached⟩, hcurrent, hmade, hapart⟩

theorem Sound.frame {e : MongoEvent} (hs : Sound h s) (hquiet : Quiet e)
    (hcurrent : t.current = s.current) (hcollections : t.collections = s.collections)
    (hcount : t.clientCount = s.clientCount) : Sound (h ++ [e]) t := by
  have hepochs : epochs (h ++ [e]) = epochs h := by rw [epochs_snoc, Epochs.after_quiet hquiet]
  refine .of_current (hs.once.quiet hquiet) ?_ ?_ ?_ ?_
  · rw [Cached, hcurrent, hcollections]
    exact hs.cached
  · rw [hepochs, hcurrent]
    exact hs.current
  · rw [hepochs, hcount]
    exact hs.made
  · rw [hepochs]
    exact hs.apart

theorem Sound.quiet {c : Command} {r : c.Reply} (hs : Sound h s) (hc : c.IsQuiet)
    (hanswer : s.Answer c r t) : Sound (h ++ [⟨c, r⟩]) t := by
  obtain ⟨hquiet, hcurrent, hcollections, hcount⟩ := hanswer.frame hc
  exact hs.frame hquiet hcurrent hcollections hcount

theorem Sound.newClientError (hs : Sound h s) (options : ClientOptions) (e : Failure) :
    Sound (h ++ [⟨.newClient options, .error e⟩]) s :=
  hs.frame ⟨id, rfl⟩ rfl rfl rfl

theorem Sound.collections_eq_nil (hs : Sound h s) (hnone : s.current = none) :
    s.collections = [] := by
  refine List.eq_nil_iff_forall_not_mem.mpr fun entry hentry => ?_
  obtain ⟨instance', hcurrent, -⟩ := hs.cached entry hentry
  simp [hnone] at hcurrent

/-- The first client of an epoch. -/
theorem Sound.newClient (hs : Sound h s) (hnone : s.current = none) (options : ClientOptions) :
    Consistent (h ++ [⟨.newClient options, .ok s.clientCount⟩])
      { s with clientCount := s.clientCount + 1 } := by
  have hempty : (epochs h).sinceReset = [] := by simpa [hnone] using hs.current
  exact ⟨throughout_snoc.mpr ⟨hs.once, fun _ => hempty⟩, by simp [hnone], hs.cached⟩

theorem Sound.writeInstance (hs : Sound h s) (hnone : s.current = none)
    (options : ClientOptions) :
    Sound (h ++ [⟨.newClient options, .ok s.clientCount⟩] ++
        [⟨.writeInstance (some ⟨s.clientCount⟩), ()⟩])
      { s with clientCount := s.clientCount + 1, current := some ⟨s.clientCount⟩ } := by
  have hempty : (epochs h).sinceReset = [] := by simpa [hnone] using hs.current
  have hmade := hs.made
  rw [hempty, List.append_nil] at hmade
  refine .of_current ((hs.newClient hnone options).once.quiet ⟨id, rfl⟩) ?_ ?_ ?_ ?_
  · simp [Cached, hs.collections_eq_nil hnone]
  · simp only [epochs_snoc, Epochs.after, hempty]
    rfl
  · simp only [epochs_snoc, Epochs.after, hempty]
    grind
  · simp only [epochs_snoc, Epochs.after, hempty]
    grind

/-- All locks are free. -/
def Unlocked (s : MongoStore) : Prop := ∀ lock, (s.locks lock).Free

/-- All locks but one are free, and no task waits for that one. -/
def Held (lock : ℕ) (s : MongoStore) : Prop :=
  (s.locks lock).locked = true ∧ (s.locks lock).waiters = [] ∧
    ∀ lock' ≠ lock, (s.locks lock').Free

theorem Unlocked.acquire (hs : Unlocked s) (lock : ℕ) :
    Held lock { s with locks := Function.update s.locks lock (s.locks lock).take } := by
  refine ⟨by simp [AsyncLock.take], by simpa [AsyncLock.take] using (hs lock).2, ?_⟩
  intro lock' hne
  simpa [Function.update_of_ne hne] using hs lock'

theorem Held.release {lock : ℕ} (hs : Held lock s) :
    Unlocked { s with locks := Function.update s.locks lock (s.locks lock).release } := by
  intro lock'
  obtain ⟨-, hwaiters, hfree⟩ := hs
  by_cases heq : lock' = lock
  · subst heq
    simp [AsyncLock.Free, AsyncLock.release, hwaiters]
  · simpa [Function.update_of_ne heq] using hfree lock' heq

theorem Unlocked.newLock (hs : Unlocked s) :
    Unlocked { s with
      locks := Function.update s.locks s.lockCount {}, lockCount := s.lockCount + 1 } := by
  intro lock
  by_cases heq : lock = s.lockCount
  · subst heq
    simpa using AsyncLock.free_new
  · simpa [Function.update_of_ne heq] using hs lock

/-! ## Single commands -/

section commands
variable {A : List MongoEvent → MongoStore → Prop} {α : Type}
  {Q : Except Failure α → List MongoEvent → MongoStore → Prop}

/-- A command that is answered at once: every one, but for `acquire` on a lock that is not free. -/
theorem alone_ask {c : Command} {f : c.Reply → MongoProg α} (hA : A h s)
    (hfree : ∀ lock, c = .acquire lock → (s.locks lock).Free)
    (hnext : ∀ r t, s.Answer c r t → Alone mongoKernel A i Q (f r) (h ++ [⟨c, r⟩]) t) :
    Alone mongoKernel A i Q (ask c >>= f) h s := by
  refine ⟨hA, ?_, hnext⟩
  intro t hsuspend
  cases hsuspend with
  | acquire hheld => exact hheld (hfree _ rfl)

/-- The last command of a program. -/
theorem alone_last {c : Command} {Q : Except Failure c.Reply → List MongoEvent → MongoStore → Prop}
    (hA : A h s) (hfree : ∀ lock, c = .acquire lock → (s.locks lock).Free)
    (hnext : ∀ r t, s.Answer c r t → A (h ++ [⟨c, r⟩]) t ∧ Q (.ok r) (h ++ [⟨c, r⟩]) t) :
    Alone mongoKernel A i Q (ask c) h s :=
  alone_ask (f := .ret) hA hfree hnext

end commands

/-- A quiet command keeps the invariant. -/
theorem Sound.ask {α : Type} {Q : Except Failure α → List MongoEvent → MongoStore → Prop}
    {c : Command} {f : c.Reply → MongoProg α} (hs : Sound h s) (hc : c.IsQuiet)
    (hfree : ∀ lock, c = .acquire lock → (s.locks lock).Free)
    (hnext : ∀ r t, s.Answer c r t → Sound (h ++ [⟨c, r⟩]) t →
      Alone mongoKernel Consistent i Q (f r) (h ++ [⟨c, r⟩]) t) :
    Alone mongoKernel Consistent i Q (ask c >>= f) h s :=
  alone_ask hs.toConsistent hfree fun r t hanswer => hnext r t hanswer (hs.quiet hc hanswer)

/-- How a call may fail: only with what `motor` raises. -/
def FailsOnlyInMotor {α : Type} (r : Except Failure α) : Prop :=
  ∀ e, r = .error e → ∃ text, e = .motor text

@[simp] theorem failsOnlyInMotor_ok {α : Type} (a : α) :
    FailsOnlyInMotor (.ok a : Except Failure α) := by
  simp [FailsOnlyInMotor]

@[simp] theorem failsOnlyInMotor_motor {α : Type} (text : String) :
    FailsOnlyInMotor (.error (.motor text) : Except Failure α) := by
  simp [FailsOnlyInMotor]

/-! ## The client -/

section client
variable (settings : Settings)

theorem getLock_alone (hs : Sound h s) (hnone : s.current = none) (hfree : Unlocked s) :
    Alone mongoKernel Consistent i
      (fun r h s => FailsOnlyInMotor r ∧ Sound h s ∧ s.current = none ∧ Unlocked s)
      MongoClientSingleton.getLock h s := by
  unfold MongoClientSingleton.getLock
  refine hs.ask trivial (by simp) fun lock t hanswer hs => ?_
  cases hanswer
  cases hlock : s.lock with
  | some lock =>
    rw [hlock] at hs
    exact ⟨hs.toConsistent, by simp, hs, hnone, hfree⟩
  | none =>
    rw [hlock] at hs
    refine hs.ask trivial (by simp) fun lock t hanswer hs => ?_
    cases hanswer
    refine hs.ask trivial (by simp) fun _ t hanswer hs => ?_
    cases hanswer
    exact ⟨hs.toConsistent, by simp, hs, hnone, hfree.newLock⟩

/-- The task that holds the lock makes the client that it finds missing. -/
theorem createClient_alone {lock : ℕ} (uri : Option String) (maxPoolSize : ℤ) (hs : Sound h s)
    (hnone : s.current = none) (hheld : Held lock s) :
    Alone mongoKernel Consistent i
      (fun r h s => FailsOnlyInMotor r ∧ Sound h s ∧ (r = .ok () → s.current.isSome) ∧ Held lock s)
      (MongoClientSingleton.createClient settings uri maxPoolSize) h s := by
  unfold MongoClientSingleton.createClient
  refine hs.ask trivial (by simp) fun _ t hanswer hs => ?_
  cases hanswer
  rw [hnone] at hs ⊢
  refine alone_ask hs.toConsistent (by simp) fun client t hanswer => ?_
  cases hanswer with
  | @newClientError _ text =>
    have hs := hs.newClientError (MongoClientSingleton.init settings uri maxPoolSize) (.motor text)
    exact ⟨hs.toConsistent, by simp, hs, by simp, hheld⟩
  | newClient =>
    refine alone_last (hs.newClient hnone _) (by simp) fun _ t hanswer => ?_
    cases hanswer
    have hs := hs.writeInstance hnone (MongoClientSingleton.init settings uri maxPoolSize)
    exact ⟨hs.toConsistent, by simp, hs, by simp, hheld⟩

/-- Giving back a lock that the task holds. -/
theorem release_alone {α : Type} {lock : ℕ} {rest : MongoProg α}
    {Q : Except Failure α → List MongoEvent → MongoStore → Prop} (hs : Sound h s)
    (hheld : Held lock s)
    (hrest : ∀ t, s.Answer (.release lock) (.ok ()) t → Unlocked t →
      Sound (h ++ [⟨.release lock, .ok ()⟩]) t →
      Alone mongoKernel Consistent i Q rest (h ++ [⟨.release lock, .ok ()⟩]) t) :
    Alone mongoKernel Consistent i Q (ask (.release lock) >>= fun r => orRaise r >>= fun _ => rest)
      h s := by
  refine hs.ask trivial (by simp) fun r t hanswer hs => ?_
  cases hanswer with
  | release hlocked => exact hrest _ (.release hlocked) hheld.release hs
  | releaseError hunlocked => simp [hheld.1] at hunlocked

/-- The body of `async with` is run by the task that holds the lock, and when it is left all locks
are free. -/
theorem withLock_alone {α : Type} {lock : ℕ} {body : MongoProg α}
    {Q : Except Failure α → List MongoEvent → MongoStore → Prop} (hs : Sound h s)
    (hfree : Unlocked s)
    (hbody : ∀ t, s.Answer (.acquire lock) () t → Held lock t →
      Sound (h ++ [⟨.acquire lock, ()⟩]) t →
      Alone mongoKernel Consistent i (fun r h s => Q r h s ∧ Sound h s ∧ Held lock s) body
        (h ++ [⟨.acquire lock, ()⟩]) t)
    (hQ : ∀ r h s t, Q r h s → s.Answer (.release lock) (.ok ()) t →
      Q r (h ++ [⟨.release lock, .ok ()⟩]) t) :
    Alone mongoKernel Consistent i (fun r h s => Q r h s ∧ Sound h s ∧ Unlocked s)
      (withLock lock body) h s := by
  unfold withLock
  refine hs.ask trivial (fun l hl => hfree l) fun _ t hanswer hs => ?_
  cases hanswer with
  | acquire hlock =>
    have hinside := hbody _ (.acquire hlock) (hfree.acquire lock) hs
    let Between (r : Except Failure α) (h : List MongoEvent) (s : MongoStore) : Prop :=
      Q r h s ∧ Sound h s ∧ if r.isOk then Held lock s else Unlocked s
    refine Alone.bind (Q := Between) ?_ (fun a h s hok => ?_) fun e h s _ herror => herror
    · refine hinside.handle (fun a h s _ hok => hok) fun e h s herror => ?_
      obtain ⟨hq, hs, hheld⟩ := herror
      refine release_alone hs hheld fun t hanswer hunlocked hs => ?_
      exact ⟨hs.toConsistent, hQ _ _ _ _ hq hanswer, hs, hunlocked⟩
    · obtain ⟨hq, hs, hheld⟩ := hok
      refine release_alone hs hheld fun t hanswer hunlocked hs => ?_
      exact ⟨hs.toConsistent, hQ _ _ _ _ hq hanswer, hs, hunlocked⟩

/-- What `get_client` ends with. -/
def ReturnsCurrent (r : Except Failure Client) (h : List MongoEvent) (s : MongoStore) : Prop :=
  FailsOnlyInMotor r ∧ ∀ client, r = .ok client → s.current = some ⟨client⟩ ∧
    client ∈ (epochs h).sinceReset ∧ client ∉ (epochs h).earlier

theorem Sound.returnsCurrent {instance' : Instance} (hs : Sound h s)
    (hcurrent : s.current = some instance') : ReturnsCurrent (.ok instance'.client) h s := by
  refine ⟨by simp, fun client hclient => ?_⟩
  obtain rfl := Except.ok.inj hclient
  have hmem : instance'.client ∈ (epochs h).sinceReset := by simp [hs.current, hcurrent]
  exact ⟨hcurrent, hmem, hs.apart _ hmem⟩

/-- After the two checks there is a client. -/
theorem ensureClient_alone (uri : Option String) (maxPoolSize : ℤ) (hs : Sound h s)
    (hfree : Unlocked s) :
    Alone mongoKernel Consistent i
      (fun r h s => (FailsOnlyInMotor r ∧ (r = .ok () → s.current.isSome)) ∧ Sound h s ∧
        Unlocked s)
      (MongoClientSingleton.ensureClient settings uri maxPoolSize) h s := by
  unfold MongoClientSingleton.ensureClient
  refine hs.ask trivial (by simp) fun r t hanswer hs => ?_
  cases hanswer
  cases hcurrent : s.current with
  | some _ =>
    rw [hcurrent] at hs
    exact ⟨hs.toConsistent, by simp [hcurrent], hs, hfree⟩
  | none =>
    rw [hcurrent] at hs
    refine (getLock_alone hs hcurrent hfree).bind (fun lock h s hlock => ?_) ?_
    · obtain ⟨-, hs, hnone, hfree⟩ := hlock
      refine withLock_alone hs hfree (fun t hanswer hheld hs => ?_) fun r h s t hq hanswer => ?_
      · cases hanswer
        refine (createClient_alone settings uri maxPoolSize hs hnone hheld).mono ?_
        rintro r h s ⟨hmotor, hs, hsome, hheld⟩
        exact ⟨⟨hmotor, hsome⟩, hs, hheld⟩
      · cases hanswer
        exact hq
    · rintro e h s - ⟨hmotor, hs, -, hfree⟩
      exact ⟨⟨by simpa [FailsOnlyInMotor] using hmotor, by simp⟩, hs, hfree⟩

theorem getClient_alone (uri : Option String) (maxPoolSize : ℤ) (hs : Sound h s)
    (hfree : Unlocked s) :
    Alone mongoKernel Consistent i
      (fun r h s => (Sound h s ∧ Unlocked s) ∧ ReturnsCurrent r h s)
      (MongoClientSingleton.getClient settings uri maxPoolSize) h s := by
  unfold MongoClientSingleton.getClient
  refine (ensureClient_alone settings uri maxPoolSize hs hfree).bind (fun _ h s hready => ?_) ?_
  · obtain ⟨⟨-, hsome⟩, hs, hfree⟩ := hready
    refine hs.ask trivial (by simp) fun r t hanswer hs => ?_
    cases hanswer
    obtain ⟨instance', hcurrent⟩ := Option.isSome_iff_exists.mp (hsome rfl)
    rw [hcurrent] at hs ⊢
    exact ⟨hs.toConsistent, ⟨hs, hfree⟩, hs.returnsCurrent hcurrent⟩
  · rintro e h s - ⟨⟨hmotor, -⟩, hs, hfree⟩
    exact ⟨⟨hs, hfree⟩, by simpa [FailsOnlyInMotor] using hmotor, by simp⟩

end client

/-! ## The collections -/

section collections
variable (settings : Settings) (logger : MongoSystemEventLogger)

/-- The current client's collection may be cached. -/
theorem Sound.writeCollection {instance' : Instance} (hs : Sound h s)
    (hcurrent : s.current = some instance') (database table : String) :
    Sound (h ++ [⟨.writeCollection (database, table) ⟨instance'.client, database, table⟩, ()⟩])
      { s with
        collections := pySet s.collections (database, table)
          ⟨instance'.client, database, table⟩ } := by
  have hquiet :
      Quiet ⟨.writeCollection (database, table) ⟨instance'.client, database, table⟩, ()⟩ :=
    ⟨id, rfl⟩
  refine .of_current (hs.once.quiet hquiet) (fun entry hentry => ?_) ?_ ?_ ?_
  · rcases mem_of_mem_pySet hentry with rfl | hmem
    · exact ⟨instance', hcurrent, rfl⟩
    · exact hs.cached entry hmem
  all_goals rw [epochs_snoc, Epochs.after_quiet hquiet]
  · exact hs.current
  · exact hs.made
  · exact hs.apart

/-- What `_get_collection` ends with: the current client's collection of its database and table. -/
def ReturnsCollection (r : Except Failure Collection) (s : MongoStore) : Prop :=
  FailsOnlyInMotor r ∧ ∀ collection, r = .ok collection → ∃ instance',
    s.current = some instance' ∧ collection = ⟨instance'.client, logger.database, logger.table⟩

theorem getCollection_alone (hs : Sound h s) (hfree : Unlocked s) :
    Alone mongoKernel Consistent i
      (fun r h s => (Sound h s ∧ Unlocked s) ∧ ReturnsCollection logger r s)
      (logger.getCollection settings) h s := by
  unfold MongoSystemEventLogger.getCollection
  refine hs.ask trivial (by simp) fun r t hanswer hs => ?_
  cases hanswer
  cases hcached : pyGet s.collections (logger.database, logger.table) with
  | some collection =>
    rw [hcached] at hs
    obtain ⟨instance', hcurrent, heq⟩ := hs.cached _ (mem_of_pyGet hcached)
    exact ⟨hs.toConsistent, ⟨hs, hfree⟩, by simp,
      fun _ hr => ⟨instance', hcurrent, Except.ok.inj hr ▸ heq⟩⟩
  | none =>
    rw [hcached] at hs
    refine (getClient_alone settings _ _ hs hfree).bind (fun client h s hclient => ?_) ?_
    · obtain ⟨⟨hs, hfree⟩, -, hreturned⟩ := hclient
      obtain ⟨hcurrent, -⟩ := hreturned client rfl
      refine hs.ask trivial (by simp) fun r t hanswer hs => ?_
      cases hanswer with
      | openCollectionError => exact ⟨hs.toConsistent, ⟨hs, hfree⟩, by simp, by simp⟩
      | openCollection =>
        refine alone_ask hs.toConsistent (by simp) fun _ t hanswer => ?_
        cases hanswer
        have hs := hs.writeCollection hcurrent logger.database logger.table
        exact ⟨hs.toConsistent, ⟨hs, hfree⟩, by simp,
          fun _ hr => ⟨_, hcurrent, (Except.ok.inj hr).symm⟩⟩
    · rintro e h s - ⟨⟨hs, hfree⟩, hmotor, -⟩
      exact ⟨⟨hs, hfree⟩, by simpa [FailsOnlyInMotor] using hmotor, by simp⟩

theorem clearCollectionCache_alone (hs : Sound h s) (hfree : Unlocked s) :
    Alone mongoKernel Consistent i (fun r h s => (Sound h s ∧ Unlocked s) ∧ FailsOnlyInMotor r)
      (ask .clearCollections) h s := by
  refine alone_last hs.toConsistent (by simp) fun r t hanswer => ?_
  cases hanswer
  have hquiet : Quiet ⟨.clearCollections, ()⟩ := ⟨id, rfl⟩
  have hcleared : Sound (h ++ [⟨.clearCollections, ()⟩]) { s with collections := [] } := by
    refine .of_current (hs.once.quiet hquiet) (by simp [Cached]) ?_ ?_ ?_
    all_goals rw [epochs_snoc, Epochs.after_quiet hquiet]
    · exact hs.current
    · exact hs.made
    · exact hs.apart
  exact ⟨hcleared.toConsistent, ⟨hcleared, hfree⟩, by simp⟩

end collections

/-! ## Reset and close -/

/-- There is neither a client nor a collection. -/
def Forgotten (s : MongoStore) : Prop := s.current = none ∧ s.collections = []

/-- A `reset` forgets the client first and the collections last, so between its commands only the
history is spoken of. -/
theorem reset_alone (hs : Sound h s) (hfree : Unlocked s) :
    Alone mongoKernel (fun h _ => OncePerEpoch h) i
      (fun r h s => (Sound h s ∧ Unlocked s) ∧ r = .ok () ∧ Forgotten s)
      MongoClientSingleton.reset h s := by
  unfold MongoClientSingleton.reset
  have hreset : OncePerEpoch (h ++ [⟨.writeInstance none, ()⟩]) :=
    throughout_snoc.mpr ⟨hs.once, by simp [created?]⟩
  have hlock := hreset.quiet (e := ⟨.writeLock none, ()⟩) ⟨id, rfl⟩
  have hcleared := hlock.quiet (e := ⟨.clearCollections, ()⟩) ⟨id, rfl⟩
  refine alone_ask hs.once (by simp) fun _ t hanswer => ?_
  cases hanswer
  refine alone_ask hreset (by simp) fun _ t hanswer => ?_
  cases hanswer
  refine alone_last (A := fun h _ => OncePerEpoch h) hlock (by simp) fun _ t hanswer => ?_
  cases hanswer
  refine ⟨hcleared, ⟨.of_current hcleared (by simp [Cached]) ?_ ?_ ?_, hfree⟩, rfl, rfl, rfl⟩
  all_goals simp only [epochs_snoc, Epochs.after]
  · rfl
  · simpa using hs.made
  · simp

/-- What `close` ends with: unless `motor` has raised, it has reset. -/
def Closed (r : Except Failure Unit) (s : MongoStore) : Prop :=
  FailsOnlyInMotor r ∧ (r = .ok () → Forgotten s)

theorem close_alone (hs : Sound h s) (hfree : Unlocked s) :
    Alone mongoKernel (fun h _ => OncePerEpoch h) i
      (fun r h s => (Sound h s ∧ Unlocked s) ∧ Closed r s) MongoClientSingleton.close h s := by
  let Ready (r : Except Failure Unit) (h : List MongoEvent) (s : MongoStore) : Prop :=
    (Sound h s ∧ Unlocked s) ∧ FailsOnlyInMotor r
  refine Alone.bind (Q := Ready) ?_ (fun _ h s hready => ?_) fun e h s _ hready =>
    ⟨hready.1, hready.2, by simp⟩
  · unfold MongoClientSingleton.closeClient
    refine alone_ask hs.once (by simp) fun r t hanswer => ?_
    have hs' := hs.quiet (c := .readInstance) trivial hanswer
    cases hanswer
    cases hcurrent : s.current with
    | none =>
      rw [hcurrent] at hs'
      exact ⟨hs'.once, ⟨hs', hfree⟩, by simp⟩
    | some instance' =>
      rw [hcurrent] at hs'
      refine alone_ask hs'.once (by simp) fun r t hanswer => ?_
      have hs := hs'.quiet (c := .closeClient instance'.client) trivial hanswer
      cases hanswer <;> exact ⟨hs.once, ⟨hs, hfree⟩, by simp⟩
  · refine (reset_alone hready.1.1 hready.1.2).mono ?_
    rintro r h s ⟨hs, rfl, hforgotten⟩
    exact ⟨hs, by simp, fun _ => hforgotten⟩

/-! ## Every run -/

/-- What holds while a call runs. -/
def Meanwhile : Call → List MongoEvent → MongoStore → Prop
  | .reset, h, _ | .close, h, _ => OncePerEpoch h
  | _, h, s => Consistent h s

/-- What a call ends with. -/
def EndsWith : (call : Call) → Except Failure call.Value → List MongoEvent → MongoStore → Prop
  | .getClient .., r, h, s => ReturnsCurrent r h s
  | .getCollection logger, r, _, s => ReturnsCollection logger r s
  | .reset, r, _, s => r = .ok () ∧ Forgotten s
  | .close, r, _, s => Closed r s
  | .clearCollectionCache, r, _, _ => FailsOnlyInMotor r

theorem call_alone (settings : Settings) (call : Call) (hs : Sound h s ∧ Unlocked s) :
    Alone mongoKernel (Meanwhile call) i
      (fun r h s => (Sound h s ∧ Unlocked s) ∧ EndsWith call r h s) (call.body settings) h s := by
  cases call with
  | getClient uri maxPoolSize => exact getClient_alone settings uri maxPoolSize hs.1 hs.2
  | getCollection logger => exact getCollection_alone settings logger hs.1 hs.2
  | reset => exact reset_alone hs.1 hs.2
  | close => exact close_alone hs.1 hs.2
  | clearCollectionCache => exact clearCollectionCache_alone hs.1 hs.2

theorem sound_initial : Sound [] {} ∧ Unlocked {} :=
  ⟨.of_current throughout_nil (by simp [Cached]) rfl (by simp [epochs]) (by simp [epochs]),
    fun _ => AsyncLock.free_new⟩

section runs
variable {settings : Settings} {tr : List (Transition MongoLoop MongoLabel)} {l : MongoLoop}

/-- No call of a run ever waits for another one. -/
theorem undisturbed (hrun : Run (MongoStep settings) (Loop.fresh {}) tr l) :
    l.Undisturbed mongoKernel Meanwhile (fun h s => Sound h s ∧ Unlocked s) EndsWith :=
  Loop.alone (fun _ call _ _ hs => call_alone settings call hs) sound_initial hrun

/-- What holds of the history at any time. -/
theorem oncePerEpoch_of_run (hrun : Run (MongoStep settings) (Loop.fresh {}) tr l) :
    OncePerEpoch l.history := by
  have hl := undisturbed hrun
  cases hrunning : l.running with
  | none => exact (hl.idle hrunning).1.once
  | some task =>
    have hmeanwhile := (hl.busy _ _ _ hrunning).always
    cases hcalled : task.called <;> simp only [hcalled, Meanwhile] at hmeanwhile
    case reset | close => exact hmeanwhile
    all_goals exact hmeanwhile.once

/-- The class variable `_collections` as other code sees it: between two commands, unless a call of
`reset` or `close` is under way. -/
def Visible (l : MongoLoop) : Prop :=
  ∀ task, l.running = some task → task.called ≠ .reset ∧ task.called ≠ .close

theorem consistent_of_visible (hrun : Run (MongoStep settings) (Loop.fresh {}) tr l)
    (hvisible : Visible l) : Consistent l.history l.store := by
  have hl := undisturbed hrun
  cases hrunning : l.running with
  | none => exact (hl.idle hrunning).1.toConsistent
  | some task =>
    obtain ⟨hreset, hclose⟩ := hvisible task hrunning
    have hmeanwhile := (hl.busy _ _ _ hrunning).always
    cases hcalled : task.called <;> simp only [hcalled, Meanwhile] at hmeanwhile
    case reset => exact absurd hcalled hreset
    case close => exact absurd hcalled hclose
    all_goals exact hmeanwhile

end runs

/-! ## Epochs of a run -/

/-- The end of a call of `reset`, or of one of `close` in which `motor` has not raised. -/
def EndsEpoch : MongoLabel → Bool
  | .finish _ .reset (.ok _) | .finish _ .close (.ok _) => true
  | _ => false

/-- The client that is made in a step. -/
def madeIn : MongoLabel → Option Client
  | .answer _ c r | .resume _ c r => created? ⟨c, r⟩
  | _ => none

def Epochs.next (epochs : Epochs) (x : MongoLabel) : Epochs :=
  if EndsEpoch x then ⟨epochs.earlier ++ epochs.sinceReset, []⟩
  else ⟨epochs.earlier, epochs.sinceReset ++ (madeIn x).toList⟩

/-- The clients of a run, by the calls that have ended in it. -/
def runEpochs (tr : List (Transition MongoLoop MongoLabel)) : Epochs :=
  tr.foldl (fun epochs x => epochs.next x.label) {}

@[simp] theorem runEpochs_snoc (tr : List (Transition MongoLoop MongoLabel))
    (x : Transition MongoLoop MongoLabel) :
    runEpochs (tr ++ [x]) = (runEpochs tr).next x.label := by
  simp [runEpochs]

theorem runEpochs_append (tr : List (Transition MongoLoop MongoLabel))
    {segment : List (Transition MongoLoop MongoLabel)}
    (hsegment : ∀ x ∈ segment, EndsEpoch x.label = false) :
    (runEpochs (tr ++ segment)).sinceReset =
      (runEpochs tr).sinceReset ++ segment.filterMap fun x => madeIn x.label := by
  induction segment using List.reverseRecOn with
  | nil => simp
  | append_singleton segment x ih =>
    have hx : EndsEpoch x.label = false := hsegment x (by simp)
    rw [← List.append_assoc, runEpochs_snoc, Epochs.next, hx, List.filterMap_append,
      ← List.append_assoc, ← ih fun y hy => hsegment y (List.mem_append_left _ hy)]
    cases hmade : madeIn x.label <;> simp [hmade]

/-- Neither a new client nor an empty client variable. -/
def Command.IsPlain : Command → Prop
  | .writeInstance none | .newClient _ => False
  | _ => True

theorem Command.IsPlain.quiet {c : Command} (hc : c.IsPlain) (r : c.Reply) : Quiet ⟨c, r⟩ := by
  unfold Command.IsPlain at hc
  split at hc
  · exact hc.elim
  · exact hc.elim
  · next hwrite hnew =>
    cases c with
    | writeInstance value =>
      cases value with
      | none => exact (hwrite rfl).elim
      | some => exact ⟨id, rfl⟩
    | newClient options => exact (hnew options rfl).elim
    | _ => exact ⟨id, rfl⟩

/-- The program returns, and on the way does nothing but plain commands. -/
def Settles {α : Type} : MongoProg α → Prop
  | .ret _ => True
  | .raise _ => False
  | .call c k => c.IsPlain ∧ ∀ r, Settles (k r)

/-- The program empties the client variable once before it returns. -/
def Empties {α : Type} : MongoProg α → Prop
  | .ret _ => False
  | .raise _ => True
  | .call c k => c = .writeInstance none ∧ (∀ r, Settles (k r)) ∨ c.IsPlain ∧ ∀ r, Empties (k r)

def Call.Resets : Call → Prop
  | .reset | .close => True
  | _ => False

section bodies
variable (settings : Settings)

theorem reset_empties : Empties MongoClientSingleton.reset :=
  .inl ⟨rfl, fun _ => ⟨trivial, fun _ => ⟨trivial, fun _ => trivial⟩⟩⟩

theorem close_empties : Empties MongoClientSingleton.close := by
  refine .inr ⟨trivial, fun current => ?_⟩
  cases current with
  | none => exact reset_empties
  | some instance' =>
    refine .inr ⟨trivial, fun closed => ?_⟩
    cases closed with
    | ok => exact reset_empties
    | error e => trivial

/-- Only `reset` and `close` empty the client variable. -/
def Command.Keeps (c : Command) : Prop := c ≠ .writeInstance none

theorem ask_keeps {c : Command} (hc : c.Keeps) : (ask c).Only Command.Keeps :=
  ⟨hc, fun _ => trivial⟩

theorem orRaise_keeps {α : Type} (r : Except Failure α) : (orRaise r).Only Command.Keeps := by
  cases r <;> trivial

theorem getClient_keeps (uri : Option String) (maxPoolSize : ℤ) :
    (MongoClientSingleton.getClient settings uri maxPoolSize).Only Command.Keeps := by
  have hlock : MongoClientSingleton.getLock.Only Command.Keeps := by
    refine (ask_keeps (by simp [Command.Keeps])).bind fun lock => ?_
    cases lock with
    | some => trivial
    | none => exact ⟨by simp [Command.Keeps], fun _ => ⟨by simp [Command.Keeps], fun _ => trivial⟩⟩
  have hcreate : (MongoClientSingleton.createClient settings uri maxPoolSize).Only
      Command.Keeps := by
    refine (ask_keeps (by simp [Command.Keeps])).bind fun current => ?_
    cases current with
    | some => trivial
    | none =>
      refine (ask_keeps (by simp [Command.Keeps])).bind fun client => ?_
      exact (orRaise_keeps client).bind fun _ => ask_keeps (by simp [Command.Keeps])
  have hrelease : ∀ lock, (do orRaise (← ask (.release lock)) : MongoProg Unit).Only
      Command.Keeps := fun lock =>
    (ask_keeps (by simp [Command.Keeps])).bind fun released => orRaise_keeps released
  refine Prog.Only.bind ?_ fun _ => (ask_keeps (by simp [Command.Keeps])).bind fun current => ?_
  · refine (ask_keeps (by simp [Command.Keeps])).bind fun current => ?_
    cases current with
    | some => trivial
    | none =>
      refine hlock.bind fun lock => (ask_keeps (by simp [Command.Keeps])).bind fun _ => ?_
      have hraise : ∀ e, (Prog.raise e : MongoProg Unit).Only Command.Keeps :=
        fun _ => trivial
      refine (hcreate.handle fun e => (hrelease lock).bind fun _ => hraise e).bind fun value => ?_
      exact (hrelease lock).bind fun _ => trivial
  · cases current <;> trivial

theorem body_keeps {call : Call} (hcall : ¬ call.Resets) :
    (call.body settings).Only Command.Keeps := by
  cases call with
  | getClient uri maxPoolSize => exact getClient_keeps settings uri maxPoolSize
  | getCollection logger =>
    refine (ask_keeps (by simp [Command.Keeps])).bind fun collection => ?_
    cases collection with
    | some => trivial
    | none =>
      refine (getClient_keeps settings _ _).bind fun client => ?_
      refine (ask_keeps (by simp [Command.Keeps])).bind fun opened => ?_
      refine (orRaise_keeps opened).bind fun collection => ?_
      exact (ask_keeps (by simp [Command.Keeps])).bind fun _ => trivial
  | reset | close => exact absurd trivial hcall
  | clearCollectionCache => exact ask_keeps (by simp [Command.Keeps])

end bodies

/-- What the history tells of the clients is what the ended calls tell, except for a call that has
emptied the client variable and goes on. -/
structure Agrees (tr : List (Transition MongoLoop MongoLabel)) (l : MongoLoop) : Prop where
  idle : l.running = none → epochs l.history = runEpochs tr
  busy : ∀ task, l.running = some task →
    epochs l.history = runEpochs tr ∧ (task.called.Resets → Empties task.rest) ∧
      (¬ task.called.Resets → task.rest.Only Command.Keeps) ∨
    epochs l.history = ⟨(runEpochs tr).earlier ++ (runEpochs tr).sinceReset, []⟩ ∧
      task.called.Resets ∧ Settles task.rest
  once : (runEpochs tr).sinceReset.length ≤ 1

section answers
variable {c : Command} {r : c.Reply} (epochs : Epochs)

theorem Epochs.after_eq_next (hc : c.Keeps) :
    epochs.after ⟨c, r⟩ = epochs.next (.answer i c r) := by
  cases c with
  | writeInstance value =>
    cases value with
    | none => exact absurd rfl hc
    | some => simp [Epochs.after, Epochs.next, EndsEpoch, madeIn, created?]
  | newClient options =>
    cases r <;> simp [Epochs.after, Epochs.next, EndsEpoch, madeIn, created?]
  | _ => simp [Epochs.after, Epochs.next, EndsEpoch, madeIn, created?]

theorem Command.IsPlain.keeps (hc : c.IsPlain) : c.Keeps := by
  rintro rfl
  exact hc

theorem Epochs.next_plain (hc : c.IsPlain) : epochs.next (.answer i c r) = epochs := by
  rw [← Epochs.after_eq_next _ hc.keeps, Epochs.after_quiet (hc.quiet r)]

end answers

section runs
variable {settings : Settings} {tr : List (Transition MongoLoop MongoLabel)} {l l' : MongoLoop}

theorem Agrees.answer {c : Command} {r : c.Reply} {call : Call}
    {k : c.Reply → MongoProg call.Value} {t : MongoStore} (hl : Agrees tr l)
    (hrunning : l.running = some ⟨i, call, .call c k⟩)
    (honce : (epochs (l.history ++ [⟨c, r⟩])).sinceReset.length ≤ 1) :
    Agrees (tr ++ [⟨l, .answer i c r, l'⟩]) { l with
      store := t, history := l.history ++ [⟨c, r⟩], running := some ⟨i, call, k r⟩ } := by
  rw [epochs_snoc] at honce
  rcases hl.busy _ hrunning with ⟨heq, hempties, hkeeps⟩ | ⟨heq, hresets, hc, hk⟩
  · by_cases hresets : call.Resets
    · rcases hempties hresets with ⟨rfl, hsettles⟩ | ⟨hc, hk⟩
      · -- the client variable is emptied here
        have hsame : (runEpochs tr).next (.answer i (.writeInstance none) r) = runEpochs tr := by
          simp [Epochs.next, EndsEpoch, madeIn, created?]
        refine ⟨by simp, fun task htask => ?_, ?_⟩
        · cases htask
          simp only [epochs_snoc, runEpochs_snoc, hsame, heq]
          exact .inr ⟨rfl, hresets, hsettles r⟩
        · simpa [hsame] using hl.once
      · refine ⟨by simp, fun task htask => ?_, ?_⟩
        · cases htask
          simp only [epochs_snoc, runEpochs_snoc, Epochs.after_quiet (hc.quiet r),
            Epochs.next_plain _ hc]
          exact .inl ⟨heq, fun _ => hk r, fun h => absurd hresets h⟩
        · simpa [Epochs.next_plain _ hc] using hl.once
    · obtain ⟨hc, hk⟩ := hkeeps hresets
      rw [heq, Epochs.after_eq_next (i := i) _ hc] at honce
      refine ⟨by simp, fun task htask => ?_, by simpa using honce⟩
      cases htask
      simp only [epochs_snoc, runEpochs_snoc, heq, Epochs.after_eq_next (i := i) _ hc]
      exact .inl ⟨trivial, fun h => absurd h hresets, fun _ => hk r⟩
  · refine ⟨by simp, fun task htask => ?_, ?_⟩
    · cases htask
      simp only [epochs_snoc, runEpochs_snoc, Epochs.after_quiet (hc.quiet r),
        Epochs.next_plain _ hc]
      exact .inr ⟨heq, hresets, hk r⟩
    · simpa [Epochs.next_plain _ hc] using hl.once

theorem endsEpoch_of_resets {call : Call} (hcall : call.Resets) (r : Except Failure call.Value) :
    EndsEpoch (.finish i call r) = r.isOk := by
  cases call with
  | reset | close => cases r <;> rfl
  | _ => exact hcall.elim

theorem endsEpoch_of_not_resets {call : Call} (hcall : ¬ call.Resets)
    (r : Except Failure call.Value) : EndsEpoch (.finish i call r) = false := by
  cases call with
  | reset | close => exact absurd trivial hcall
  | _ => rfl

theorem Agrees.finish {call : Call} {p : MongoProg call.Value} {r : Except Failure call.Value}
    (hl : Agrees tr l) (hrunning : l.running = some ⟨i, call, p⟩) (hresult : p.result? = some r) :
    Agrees (tr ++ [⟨l, .finish i call r, l'⟩]) { l with running := none } := by
  have hmade : madeIn (.finish i call r) = none := rfl
  rcases hl.busy _ hrunning with ⟨heq, hempties, -⟩ | ⟨heq, hresets, hsettles⟩
  · have hnot : EndsEpoch (.finish i call r) = false := by
      by_cases hresets : call.Resets
      · rw [endsEpoch_of_resets hresets]
        have hp := hempties hresets
        cases p with
        | ret => exact hp.elim
        | raise e =>
          obtain rfl := Option.some_inj.mp hresult
          rfl
        | call c k => cases hresult
      · exact endsEpoch_of_not_resets hresets r
    have hsame : (runEpochs tr).next (.finish i call r) = runEpochs tr := by
      simp [Epochs.next, hnot, hmade]
    exact ⟨fun _ => by simp [hsame, heq], by simp, by simpa [hsame] using hl.once⟩
  · have hends : EndsEpoch (.finish i call r) = true := by
      rw [endsEpoch_of_resets hresets]
      cases p with
      | ret a =>
        obtain rfl := Option.some_inj.mp hresult
        rfl
      | raise e => exact hsettles.elim
      | call c k => cases hresult
    refine ⟨fun _ => ?_, by simp, ?_⟩
    · simp [Epochs.next, hends, heq]
    · simp [Epochs.next, hends]

/-- The two agree in every run. -/
theorem agrees (hrun : Run (MongoStep settings) (Loop.fresh {}) tr l) : Agrees tr l := by
  induction hrun with
  | nil => exact ⟨fun _ => rfl, by simp [Loop.fresh], by simp [runEpochs]⟩
  | @snoc tr l l' x hrun hstep ih =>
    have hl := undisturbed hrun
    have honce := (oncePerEpoch_of_run (hrun.snoc hstep)).length_le_one
    cases hstep with
    | @start call hidle =>
      have hsame : (runEpochs tr).next (.start l.nextId call) = runEpochs tr := by
        simp [Epochs.next, EndsEpoch, madeIn]
      refine ⟨by simp, fun task htask => ?_, by simpa [hsame] using ih.once⟩
      cases htask
      refine .inl ⟨by simpa [hsame] using ih.idle hidle, fun hresets => ?_, fun hresets => ?_⟩
      · cases call with
        | reset => exact reset_empties
        | close => exact close_empties
        | _ => exact hresets.elim
      · exact body_keeps settings hresets
    | answer hrunning hanswer => exact ih.answer hrunning honce
    | suspend hrunning hsuspend => exact absurd hsuspend ((hl.busy _ _ _ hrunning).2.1 _)
    | resume _ hwaiting _ =>
      rw [hl.waiting] at hwaiting
      simp at hwaiting
    | finish hrunning hresult => exact ih.finish hrunning hresult

theorem epochs_of_visible (hrun : Run (MongoStep settings) (Loop.fresh {}) tr l)
    (hvisible : Visible l) : epochs l.history = runEpochs tr := by
  cases hrunning : l.running with
  | none => exact (agrees hrun).idle hrunning
  | some task =>
    obtain ⟨hreset, hclose⟩ := hvisible task hrunning
    rcases (agrees hrun).busy task hrunning with ⟨heq, -⟩ | ⟨-, hresets, -⟩
    · exact heq
    · cases hcalled : task.called with
      | reset => exact absurd hcalled hreset
      | close => exact absurd hcalled hclose
      | _ =>
        rw [hcalled] at hresets
        exact hresets.elim

/-! ## One client in each epoch -/

/-- What is promised of the client where a run of the event loop has come. -/
structure ClientConsistent (settings : Settings) (tr : List (Transition MongoLoop MongoLabel))
    (l : MongoLoop) : Prop where
  /-- while no call of `reset` or `close` ends at most one client is made -/
  once : ∀ past segment future, tr = past ++ segment ++ future →
    (∀ x ∈ segment, EndsEpoch x.label = false) →
      (segment.filterMap fun x => madeIn x.label).length ≤ 1
  /-- a call of `get_client` that ends returns the client made since the last reset, unless `motor`
  has raised -/
  returned : ∀ i uri maxPoolSize r l',
    MongoStep settings l (.finish i (.getClient uri maxPoolSize) r) l' →
      (∃ client, r = .ok client ∧ client ∈ (runEpochs tr).sinceReset ∧
        client ∉ (runEpochs tr).earlier) ∨ ∃ text, r = .error (.motor text)
  /-- a call of `reset` returns, and where one of `close` does not, `motor` has raised -/
  reset : ∀ i call r l', call.Resets → MongoStep settings l (.finish i call r) l' →
    r.isOk ∨ call = .close ∧ ∃ text, r = .error (.motor text)
  /-- after either there is neither a client nor a cached collection -/
  forgotten : ∀ i call r l', EndsEpoch (.finish i call r) →
    MongoStep settings l (.finish i call r) l' → Forgotten l'.store
  /-- a cached collection is the current client's, under its own key -/
  cached : Visible l → ∀ entry ∈ l.store.collections, ∃ instance',
    l.store.current = some instance' ∧ instance'.client ∈ (runEpochs tr).sinceReset ∧
      entry.2 = ⟨instance'.client, entry.1.1, entry.1.2⟩
  /-- no call waits for another -/
  waiting : l.waiting = []

/-- The client and the cached collections are consistent in every run of the event loop, with any
number of calls in any order. -/
theorem client_consistent (hrun : Run (MongoStep settings) (Loop.fresh {}) tr l) :
    ClientConsistent settings tr l where
  once past segment future hsplit hsegment := by
    subst hsplit
    obtain ⟨m, hrun', -⟩ := hrun.append_inv
    have hlength := (agrees hrun').once
    rw [runEpochs_append past hsegment, List.length_append] at hlength
    omega
  returned i uri maxPoolSize r l' hstep := by
    obtain ⟨hmotor, hreturned⟩ := (undisturbed hrun).finish hstep
    have hvisible : Visible l := by
      cases hstep with
      | finish hrunning _ => simp [Visible, hrunning]
    rw [← epochs_of_visible hrun hvisible]
    cases r with
    | ok client => exact .inl ⟨client, rfl, (hreturned client rfl).2⟩
    | error e =>
      obtain ⟨text, rfl⟩ := hmotor e rfl
      exact .inr ⟨text, rfl⟩
  reset i call r l' hcall hstep := by
    have hends := (undisturbed hrun).finish hstep
    cases call with
    | reset =>
      obtain ⟨rfl, -⟩ := hends
      exact .inl rfl
    | close =>
      cases r with
      | ok => exact .inl rfl
      | error e =>
        obtain ⟨text, rfl⟩ := hends.1 e rfl
        exact .inr ⟨rfl, text, rfl⟩
    | _ => exact hcall.elim
  forgotten i call r l' hepoch hstep := by
    have hends := (undisturbed hrun).finish hstep
    have hstore : l'.store = l.store := by
      cases hstep
      rfl
    rw [hstore]
    cases call with
    | reset => exact hends.2
    | close =>
      cases r with
      | ok => exact hends.2 rfl
      | error => cases hepoch
    | _ => cases hepoch
  cached hvisible entry hentry := by
    have hconsistent := consistent_of_visible hrun hvisible
    obtain ⟨instance', hcurrent, heq⟩ := hconsistent.cached entry hentry
    rw [← epochs_of_visible hrun hvisible]
    exact ⟨instance', hcurrent, hconsistent.known _ hcurrent, heq⟩
  waiting := (undisturbed hrun).waiting

end runs

/-- Two calls of `get_client` with one of `reset` between them: each makes a client of its own. -/
theorem exists_run_getClient_again : ∃ tr l, Run (MongoStep {}) (Loop.fresh {}) tr l ∧
    l.running = none ∧ l.store.current = some ⟨1⟩ ∧ runEpochs tr = ⟨[0], [1]⟩ := by
  have hstart : Run (MongoStep {}) (Loop.fresh {}) _ _ :=
    .single (.start (b := .getClient none 100) rfl)
  have hlock := (((hstart.snoc (.answer rfl .readInstance)).snoc (.answer rfl .readLock)).snoc
    (.answer rfl .newLock)).snoc (.answer rfl .writeLock)
  have hinside := ((hlock.snoc (.answer rfl (.acquire ⟨rfl, rfl⟩))).snoc
    (.answer rfl .readInstance)).snoc (.answer rfl .newClient)
  have hclient := (((hinside.snoc (.answer rfl .writeInstance)).snoc
    (.answer rfl (.release rfl))).snoc (.answer rfl .readInstance)).snoc (.finish rfl rfl)
  have hreset := ((((hclient.snoc (.start (b := .reset) rfl)).snoc
    (.answer rfl .writeInstance)).snoc (.answer rfl .writeLock)).snoc
    (.answer rfl .clearCollections)).snoc (.finish rfl rfl)
  have hagain := (((((hreset.snoc (.start (b := .getClient none 100) rfl)).snoc
    (.answer rfl .readInstance)).snoc (.answer rfl .readLock)).snoc
    (.answer rfl .newLock)).snoc (.answer rfl .writeLock)).snoc
    (.answer rfl (.acquire ⟨rfl, rfl⟩))
  have hmade := ((((hagain.snoc (.answer rfl .readInstance)).snoc (.answer rfl .newClient)).snoc
    (.answer rfl .writeInstance)).snoc (.answer rfl (.release rfl))).snoc
    (.answer rfl .readInstance)
  exact ⟨_, _, hmade.snoc (.finish rfl rfl), rfl, rfl, rfl⟩

theorem client_consistent_again : ∃ tr l, Run (MongoStep {}) (Loop.fresh {}) tr l ∧
    runEpochs tr = ⟨[0], [1]⟩ ∧ ClientConsistent {} tr l := by
  obtain ⟨tr, l, hrun, -, -, hepochs⟩ := exists_run_getClient_again
  exact ⟨tr, l, hrun, hepochs, client_consistent hrun⟩

end BaseWebService.SystemLog
