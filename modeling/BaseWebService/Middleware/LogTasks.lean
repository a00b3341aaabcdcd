import BaseWebService.Middleware.LogOnce

/-!
# How often a request is logged

What the tasks of `LogOnce` keep between them. A request that has the flag is one that has been
logged, is being logged, or is to be logged by a task that has not begun, and it is so in one place
only. The module's set `_background_tasks` holds the tasks that have been made and whose callbacks
have not been called, which is what keeps them from being collected.

## Main results

* `Moves`, `moves_of_answer`, `moves_of_ends` : what one command of a task can do.
* `kept` : what every run keeps.
* `logged_once`, `answered_logged`, `answer_unaltered`, `background_eq` : what follows for a
  request, its answer and the set of tasks.
-/

namespace BaseWebService.Middleware.LogOnce

open Library
open Logging (Tree)

/-! ## Single commands -/

/-- Between two commands that nothing comes in between. -/
def Place.IsFleeting : Place → Prop
  | .unlogged _ | .created _ _ | .added _ _ => True
  | _ => False

/-- Commands that a task may wait for. -/
def IsSlow : Command → Prop
  | .await | .readChunks | .takeTask | .doLogApiCall _ _ | .finishTask _ => True
  | _ => False

/-- A task at `p` is answered, and goes to `q`. -/
inductive Moves (s : LogStore) : Place → LogEvent → Place → LogStore → Prop where
  | newRequest : Moves s .outside ⟨.newRequest, s.requests⟩ (.serving s.requests)
      { s with requests := s.requests + 1 }
  | takeTask {before after : List Job} {job : Job} : s.scheduled = before ++ job :: after →
      Moves s .outside ⟨.takeTask, job⟩ (.working job.task job.request)
        { s with scheduled := before ++ after }
  | plain {request : ℕ} {p : Place} {c : Command} {r : c.Reply} {tracebacks : ℕ → Option String} :
      Serves request p → IsPlain request c → Moves s p ⟨c, r⟩ p { s with tracebacks }
  | getLogged {request : ℕ} {p : Place} : Serves request p →
      Moves s p ⟨.getLogged request, decide (request ∈ s.logged)⟩
        (if request ∈ s.logged then .settled request else .unlogged request) s
  | setLogged {request : ℕ} : Moves s (.unlogged request) ⟨.setLogged request, ()⟩
      (.claimed request) { s with logged := insert request s.logged }
  | logged {request : ℕ} {record : Record} {r : Except Failure Unit} {t : LogStore} :
      LogStore.Ends s (.doLogApiCall request record) r t →
      Moves s (.claimed request) ⟨.doLogApiCall request record, r⟩ (.settled request) t
  | worked {task request : ℕ} {record : Record} {r : Except Failure Unit} {t : LogStore} :
      LogStore.Ends s (.doLogApiCall request record) r t →
      Moves s (.working task request) ⟨.doLogApiCall request record, r⟩ (.worked task) t
  | createTask {request : ℕ} {record : Record} :
      Moves s (.claimed request) ⟨.createTask request record, s.tasks⟩ (.created request s.tasks)
        (s.schedule request record)
  | addBackground {request task : ℕ} : Moves s (.created request task) ⟨.addBackground task, ()⟩
      (.added request task) { s with background := insert task s.background }
  | addDoneCallback {request task : ℕ} : Moves s (.added request task)
      ⟨.addDoneCallback task, ()⟩ (.settled request) { s with callbacks := insert task s.callbacks }
  | finishTask {task : ℕ} : Moves s (.worked task) ⟨.finishTask task, ()⟩ .outside
      { s with background := if task ∈ s.callbacks then s.background.erase task else s.background }

section moves
variable {s t : LogStore} {p : Place} {c : Command} {r : c.Reply}

theorem moves_of_ends (hc : discipline.allows p c) (h : s.Ends c r t) :
    Moves s p ⟨c, r⟩ (discipline.next p c r) t := by
  cases h with
  | await =>
    cases p with
    | serving request => exact .plain (.inl rfl) (.inl rfl)
    | settled request => exact .plain (.inr rfl) (.inl rfl)
    | _ => exact hc.elim
  | readChunks =>
    cases p with
    | serving request => exact .plain (.inl rfl) (.inr (.inl rfl))
    | settled request => exact .plain (.inr rfl) (.inr (.inl rfl))
    | _ => exact hc.elim
  | takeTask hscheduled =>
    cases p with
    | outside => exact .takeTask hscheduled
    | _ => exact hc.elim
  | inserted hrecord =>
    cases p with
    | claimed request =>
      obtain rfl := hc
      exact .logged (.inserted hrecord)
    | working task request =>
      obtain rfl := hc
      exact .worked (.inserted hrecord)
    | _ => exact hc.elim
  | notInserted =>
    cases p with
    | claimed request =>
      obtain rfl := hc
      exact .logged .notInserted
    | working task request =>
      obtain rfl := hc
      exact .worked .notInserted
    | _ => exact hc.elim
  | finishTask =>
    cases p with
    | worked task =>
      obtain rfl := hc
      exact .finishTask
    | _ => exact hc.elim

theorem moves_of_answer (hc : discipline.allows p c) (h : s.Answer c r t) :
    Moves s p ⟨c, r⟩ (discipline.next p c r) t := by
  cases h with
  | ends h => exact moves_of_ends hc h
  | newRequest =>
    cases p with
    | outside => exact .newRequest
    | _ => exact hc.elim
  | setTraceback =>
    cases p with
    | serving request =>
      obtain rfl := hc
      exact .plain (.inl rfl) (.inr (.inr ⟨_, rfl⟩))
    | settled request =>
      obtain rfl := hc
      exact .plain (.inr rfl) (.inr (.inr ⟨_, rfl⟩))
    | _ => exact hc.elim
  | @getLogged request =>
    have hserves : Serves request p := by
      cases p with
      | serving request' => exact .inl (congrArg Place.serving (Eq.symm hc))
      | settled request' => exact .inr (congrArg Place.settled (Eq.symm hc))
      | _ => exact hc.elim
    have hmoves := Moves.getLogged (s := s) hserves
    rcases hserves with rfl | rfl <;> simpa [discipline] using hmoves
  | setLogged =>
    cases p with
    | unlogged request =>
      obtain rfl := hc
      exact .setLogged
    | _ => exact hc.elim
  | createTask =>
    cases p with
    | claimed request =>
      obtain rfl := hc
      exact .createTask
    | _ => exact hc.elim
  | addBackground =>
    cases p with
    | created request task =>
      obtain rfl := hc
      exact .addBackground
    | _ => exact hc.elim
  | addDoneCallback =>
    cases p with
    | added request task =>
      obtain rfl := hc
      exact .addDoneCallback
    | _ => exact hc.elim

theorem not_isFleeting (hc : discipline.allows p c) (hslow : IsSlow c) : ¬ p.IsFleeting := by
  intro hfleeting
  cases p with
  | unlogged | created | added => cases c <;> first | exact hslow.elim | exact hc.elim
  | _ => exact hfleeting.elim

theorem isSlow_of_suspends (h : s.Suspends c) : IsSlow c := by cases h <;> trivial

end moves

/-! ## The requests -/

def IsAttempt (request : ℕ) : LogEvent → Bool
  | ⟨.doLogApiCall request' _, _⟩ => request' = request
  | _ => false

/-- How often the request has been logged, or it was tried. -/
def attempts (h : List LogEvent) (request : ℕ) : ℕ := h.countP (IsAttempt request)

@[simp] theorem attempts_snoc (h : List LogEvent) (e : LogEvent) (request : ℕ) :
    attempts (h ++ [e]) request = attempts h request + (IsAttempt request e).toNat := by
  cases he : IsAttempt request e <;> simp [attempts, he]

/-- The task is about to log the request, or does. -/
def Place.owes (request : ℕ) : Place → Bool
  | .claimed request' | .working _ request' => request' = request
  | _ => false

/-- The request that the task has the flag of. -/
def Place.flag : Place → Option ℕ
  | .created request _ | .added request _ | .settled request => some request
  | _ => none

def due (s : LogStore) (request : ℕ) : ℕ := s.scheduled.countP fun job => job.request = request

def documentsOf (s : LogStore) (request : ℕ) : ℕ := s.documents.countP fun e => e.1 = request

/-- A request that has the flag is logged in one place, and one that does not in none. -/
structure Counted (h : List LogEvent) (m : Multiset Place) (s : LogStore) : Prop where
  once : ∀ request, attempts h request + m.countP (fun p => p.owes request) + due s request =
    if request ∈ s.logged then 1 else 0
  unlogged : ∀ request, .unlogged request ∈ m → request ∉ s.logged
  flag : ∀ p ∈ m, ∀ request, p.flag = some request → request ∈ s.logged
  documents : ∀ request, documentsOf s request ≤ attempts h request

section counted
variable {h : List LogEvent} {m : Multiset Place} {s t : LogStore} {p q : Place} {e : LogEvent}

theorem Counted.claims (hs : Counted h (p ::ₘ m) s) {request : ℕ} (hp : p.owes request = true) :
    request ∈ s.logged := by
  have hone := hs.once request
  by_contra hnot
  simp [hp, hnot] at hone

/-- A task that moves without logging. -/
theorem Counted.quiet (hs : Counted h (p ::ₘ m) s) (he : ∀ request, IsAttempt request e = false)
    (howes : ∀ request, q.owes request = p.owes request) (hdue : t.scheduled = s.scheduled)
    (hlogged : t.logged = s.logged) (hdocuments : t.documents = s.documents)
    (hunlogged : ∀ request, q = .unlogged request → request ∉ s.logged)
    (hflag : ∀ request, q.flag = some request → request ∈ s.logged) :
    Counted (h ++ [e]) (q ::ₘ m) t where
  once request := by
    have hone := hs.once request
    simpa [he, howes, due, hdue, hlogged, Multiset.countP_cons] using hone
  unlogged request hmem := by
    rw [hlogged]
    rcases Multiset.mem_cons.mp hmem with rfl | hmem
    · exact hunlogged request rfl
    · exact hs.unlogged request (Multiset.mem_cons_of_mem hmem)
  flag p' hmem request hp' := by
    rw [hlogged]
    rcases Multiset.mem_cons.mp hmem with rfl | hmem
    · exact hflag request hp'
    · exact hs.flag p' (Multiset.mem_cons_of_mem hmem) request hp'
  documents request := by
    have hle := hs.documents request
    simpa [he, documentsOf, hdocuments] using hle

/-- A task that logs its request, or fails to. -/
theorem Counted.log (hs : Counted h (p ::ₘ m) s) {request : ℕ} {record : Record}
    {r : Except Failure Unit} (hends : s.Ends (.doLogApiCall request record) r t)
    (hp : ∀ request', p.owes request' = decide (request = request'))
    (hq : ∀ request', q.owes request' = false) (hunlogged : ∀ request', q ≠ .unlogged request')
    (hflag : ∀ request', q.flag = some request' → request' = request) :
    Counted (h ++ [⟨.doLogApiCall request record, r⟩]) (q ::ₘ m) t := by
  have hsame : t.scheduled = s.scheduled ∧ t.logged = s.logged := by
    cases hends <;> exact ⟨rfl, rfl⟩
  have hdocuments : ∀ request', documentsOf t request' ≤
      documentsOf s request' + (decide (request = request')).toNat := by
    intro request'
    cases hends with
    | inserted => by_cases heq : request = request' <;> simp [documentsOf, LogStore.insertOne, heq]
    | notInserted => omega
  have hattempt : ∀ request', IsAttempt request' ⟨.doLogApiCall request record, r⟩ =
      decide (request = request') := fun _ => rfl
  constructor
  case once =>
    intro request'
    have hone := hs.once request'
    rw [hsame.2, ← hone, attempts_snoc, hattempt, Multiset.countP_cons, Multiset.countP_cons]
    simp only [due, hsame.1, hp, hq]
    by_cases heq : request = request'
    · simp [heq]
      omega
    · simp [heq]
  case unlogged =>
    intro request' hmem
    rw [hsame.2]
    rcases Multiset.mem_cons.mp hmem with hmem | hmem
    · exact absurd hmem.symm (hunlogged request')
    · exact hs.unlogged request' (Multiset.mem_cons_of_mem hmem)
  case flag =>
    intro p' hmem request' hp'
    rw [hsame.2]
    rcases Multiset.mem_cons.mp hmem with rfl | hmem
    · obtain rfl := hflag request' hp'
      exact hs.claims (by simp [hp])
    · exact hs.flag p' (Multiset.mem_cons_of_mem hmem) request' hp'
  case documents =>
    intro request'
    have hle := hs.documents request'
    have hmore := hdocuments request'
    rw [attempts_snoc, hattempt]
    omega

theorem Counted.takeTask {before after : List Job} {job : Job} (hs : Counted h (.outside ::ₘ m) s)
    (hscheduled : s.scheduled = before ++ job :: after) :
    Counted (h ++ [⟨.takeTask, job⟩]) (.working job.task job.request ::ₘ m)
      { s with scheduled := before ++ after } where
  once request := by
    have hone := hs.once request
    rw [← hone, attempts_snoc, Multiset.countP_cons, Multiset.countP_cons]
    simp only [due, hscheduled, List.countP_append, List.countP_cons, IsAttempt, Place.owes]
    by_cases heq : job.request = request
    · simp [heq]
      omega
    · simp [heq]
  unlogged request hmem := by
    rcases Multiset.mem_cons.mp hmem with hmem | hmem
    · cases hmem
    · exact hs.unlogged request (Multiset.mem_cons_of_mem hmem)
  flag p' hmem request hp' := by
    rcases Multiset.mem_cons.mp hmem with rfl | hmem
    · cases hp'
    · exact hs.flag p' (Multiset.mem_cons_of_mem hmem) request hp'
  documents request := by simpa [IsAttempt, documentsOf] using hs.documents request

/-- The flag is set for one who has found that it is not. -/
theorem Counted.setLogged {request : ℕ} (hs : Counted h (.unlogged request ::ₘ m) s)
    (hidle : ∀ p ∈ m, ¬ p.IsFleeting) :
    Counted (h ++ [⟨.setLogged request, ()⟩]) (.claimed request ::ₘ m)
      { s with logged := insert request s.logged } where
  once request' := by
    have hone := hs.once request'
    have hnew := hs.unlogged request (Multiset.mem_cons_self _ _)
    have hattempt : IsAttempt request' ⟨.setLogged request, ()⟩ = false := rfl
    have hclaimed : (Place.claimed request).owes request' = decide (request = request') := rfl
    rw [Multiset.countP_cons_of_neg _ (by exact Bool.false_ne_true)] at hone
    rw [attempts_snoc, Multiset.countP_cons, hattempt, hclaimed]
    simp only [due] at hone ⊢
    grind
  unlogged request' hmem := by
    rcases Multiset.mem_cons.mp hmem with hmem | hmem
    · cases hmem
    · exact absurd trivial (hidle _ hmem)
  flag p' hmem request' hp' := by
    rcases Multiset.mem_cons.mp hmem with rfl | hmem
    · cases hp'
    · exact Finset.mem_insert_of_mem (hs.flag p' (Multiset.mem_cons_of_mem hmem) request' hp')
  documents request' := by simpa [IsAttempt, documentsOf] using hs.documents request'

theorem Counted.createTask {request : ℕ} {record : Record}
    (hs : Counted h (.claimed request ::ₘ m) s) :
    Counted (h ++ [⟨.createTask request record, s.tasks⟩]) (.created request s.tasks ::ₘ m)
      (s.schedule request record) where
  once request' := by
    have hone := hs.once request'
    rw [LogStore.schedule_logged, ← hone, attempts_snoc, Multiset.countP_cons, Multiset.countP_cons]
    simp only [due, LogStore.schedule, List.countP_append, List.countP_singleton, IsAttempt,
      Place.owes]
    by_cases heq : request = request'
    · simp [heq]
      omega
    · simp [heq]
  unlogged request' hmem := by
    rcases Multiset.mem_cons.mp hmem with hmem | hmem
    · cases hmem
    · exact hs.unlogged request' (Multiset.mem_cons_of_mem hmem)
  flag p' hmem request' hp' := by
    rcases Multiset.mem_cons.mp hmem with rfl | hmem
    · obtain rfl : request = request' := Option.some.inj hp'
      exact hs.claims (by simp [Place.owes])
    · exact hs.flag p' (Multiset.mem_cons_of_mem hmem) request' hp'
  documents request' := by simpa [IsAttempt, documentsOf] using hs.documents request'

theorem Counted.move (hs : Counted h (p ::ₘ m) s) (hidle : ∀ p ∈ m, ¬ p.IsFleeting)
    (hmove : Moves s p e q t) : Counted (h ++ [e]) (q ::ₘ m) t := by
  have hflag := hs.flag p (Multiset.mem_cons_self _ _)
  have hunlogged : ∀ request, p = .unlogged request → request ∉ s.logged := by
    rintro request rfl
    exact hs.unlogged request (Multiset.mem_cons_self _ _)
  cases hmove with
  | newRequest => exact hs.quiet (fun _ => rfl) (fun _ => rfl) rfl rfl rfl nofun nofun
  | takeTask hscheduled => exact hs.takeTask hscheduled
  | plain hserves hplain =>
    refine hs.quiet (fun _ => ?_) (fun _ => rfl) rfl rfl rfl hunlogged hflag
    rcases hplain with rfl | rfl | ⟨_, rfl⟩ <;> rfl
  | @getLogged request _ hserves =>
    refine hs.quiet (fun _ => rfl) (fun request' => ?_) rfl rfl rfl (fun request' hq => ?_)
      fun request' hq => ?_
    all_goals split at *
    · rcases hserves with rfl | rfl <;> rfl
    · rcases hserves with rfl | rfl <;> rfl
    · cases hq
    · cases hq
      assumption
    · cases hq
      assumption
    · cases hq
  | setLogged => exact hs.setLogged hidle
  | logged hends =>
    exact hs.log hends (fun _ => rfl) (fun _ => rfl) nofun fun _ h => (Option.some.inj h).symm
  | worked hends => exact hs.log hends (fun _ => rfl) (fun _ => rfl) nofun nofun
  | createTask => exact hs.createTask
  | addBackground => exact hs.quiet (fun _ => rfl) (fun _ => rfl) rfl rfl rfl nofun hflag
  | addDoneCallback => exact hs.quiet (fun _ => rfl) (fun _ => rfl) rfl rfl rfl nofun hflag
  | finishTask => exact hs.quiet (fun _ => rfl) (fun _ => rfl) rfl rfl rfl nofun nofun

end counted

/-! ## The tasks -/

def madeBy : LogEvent → Option ℕ
  | ⟨.createTask _ _, task⟩ => some task
  | _ => none

def doneBy : LogEvent → Option ℕ
  | ⟨.finishTask task, _⟩ => some task
  | _ => none

def IsMade (h : List LogEvent) (task : ℕ) : Prop := ∃ e ∈ h, madeBy e = some task

/-- The callbacks of the task have been called. -/
def IsDone (h : List LogEvent) (task : ℕ) : Prop := ∃ e ∈ h, doneBy e = some task

@[simp] theorem isMade_snoc {h : List LogEvent} {e : LogEvent} {task : ℕ} :
    IsMade (h ++ [e]) task ↔ IsMade h task ∨ madeBy e = some task := by
  simp [IsMade, or_and_right, exists_or]

@[simp] theorem isDone_snoc {h : List LogEvent} {e : LogEvent} {task : ℕ} :
    IsDone (h ++ [e]) task ↔ IsDone h task ∨ doneBy e = some task := by
  simp [IsDone, or_and_right, exists_or]

/-- The task of `create_task` that this task is. -/
def Place.task : Place → Option ℕ
  | .working task _ | .worked task => some task
  | _ => none

/-- The task that this task has made, and not put into the set or given its callback. -/
def Place.IsAdding : Place → Prop
  | .created _ _ | .added _ _ => True
  | _ => False

def unfinished (m : Multiset Place) (s : LogStore) : Multiset ℕ :=
  (s.scheduled.map Job.task : Multiset ℕ) + m.filterMap Place.task

/-- The set is that of the tasks that have been made and are not done. -/
structure Tracked (h : List LogEvent) (m : Multiset Place) (s : LogStore) : Prop where
  nodup : (unfinished m s).Nodup
  alive : ∀ task, task ∈ unfinished m s ↔ IsMade h task ∧ ¬ IsDone h task
  made : ∀ task, IsMade h task ↔ task < s.tasks
  done : ∀ task, IsDone h task → task < s.tasks
  background : ∀ task, task ∈ s.background ↔
    task ∈ unfinished m s ∧ ∀ request, .created request task ∉ m
  callbacks : ∀ task ∈ s.background, task ∈ s.callbacks ∨ ∃ request, .added request task ∈ m
  created : ∀ request task, .created request task ∈ m → task ∈ unfinished m s

section tracked
variable {h : List LogEvent} {m : Multiset Place} {s t : LogStore} {p q : Place} {e : LogEvent}

theorem not_mem_of_idle (hidle : ∀ p ∈ m, ¬ p.IsFleeting) (request task : ℕ) :
    .created request task ∉ m ∧ .added request task ∉ m :=
  ⟨fun hmem => hidle _ hmem trivial, fun hmem => hidle _ hmem trivial⟩

/-- A command that has nothing to do with the tasks that are unfinished. -/
theorem Tracked.quiet (hs : Tracked h (p ::ₘ m) s) (hidle : ∀ p ∈ m, ¬ p.IsFleeting)
    (hmade : madeBy e = none) (hdone : doneBy e = none)
    (hunfinished : unfinished (q ::ₘ m) t = unfinished (p ::ₘ m) s)
    (htasks : t.tasks = s.tasks) (hbackground : t.background = s.background)
    (hcallbacks : t.callbacks = s.callbacks) (hp : ¬ p.IsAdding) (hq : ¬ q.IsAdding) :
    Tracked (h ++ [e]) (q ::ₘ m) t := by
  have hnone : ∀ {p : Place}, ¬ p.IsAdding → ∀ request task,
      .created request task ∉ p ::ₘ m ∧ .added request task ∉ p ::ₘ m := by
    intro p hp request task
    have hm := not_mem_of_idle hidle request task
    constructor
    all_goals
      intro hmem
      rcases Multiset.mem_cons.mp hmem with rfl | hmem
    · exact hp trivial
    · exact hm.1 hmem
    · exact hp trivial
    · exact hm.2 hmem
  constructor
  case nodup => rw [hunfinished]; exact hs.nodup
  case alive => intro task; simpa [hunfinished, hmade, hdone] using hs.alive task
  case made => intro task; simpa [hmade, htasks] using hs.made task
  case done => intro task; simpa [hdone, htasks] using hs.done task
  case background =>
    intro task
    rw [hbackground, hs.background, hunfinished]
    exact and_congr_right fun _ =>
      ⟨fun _ request => (hnone hq request task).1, fun _ request => (hnone hp request task).1⟩
  case callbacks =>
    intro task htask
    rw [hcallbacks]
    rcases hs.callbacks task (hbackground ▸ htask) with hmem | ⟨request, hmem⟩
    · exact .inl hmem
    · exact absurd hmem (hnone hp request task).2
  case created => exact fun request task hmem => absurd hmem (hnone hq request task).1

theorem unfinished_cons_none (hp : p.task = none) : unfinished (p ::ₘ m) s = unfinished m s := by
  rw [unfinished, Multiset.filterMap_cons_none _ _ hp]
  rfl

theorem unfinished_cons_some {task : ℕ} (hp : p.task = some task) :
    unfinished (p ::ₘ m) s = task ::ₘ unfinished m s := by
  rw [unfinished, Multiset.filterMap_cons_some _ _ _ hp, Multiset.add_cons]
  rfl

theorem unfinished_snoc (job : Job) (hscheduled : t.scheduled = s.scheduled ++ [job]) :
    unfinished m t = job.task ::ₘ unfinished m s := by
  rw [unfinished, hscheduled, List.map_append, ← Multiset.coe_add, List.map_singleton,
    Multiset.coe_singleton, add_right_comm, ← Multiset.singleton_add, add_comm]
  rfl

theorem unfinished_takeTask {before after : List Job} {job : Job}
    (hscheduled : s.scheduled = before ++ job :: after) :
    unfinished (.working job.task job.request ::ₘ m) { s with scheduled := before ++ after } =
      unfinished (.outside ::ₘ m) s := by
  have hperm : (before ++ job :: after).Perm (job :: (before ++ after)) := List.perm_middle
  rw [unfinished_cons_some rfl, unfinished_cons_none rfl, unfinished, unfinished, hscheduled,
    Multiset.coe_eq_coe.mpr (hperm.map Job.task), List.map_cons, ← Multiset.cons_coe,
    Multiset.cons_add]

theorem Tracked.createTask {request : ℕ} {record : Record}
    (hs : Tracked h (.claimed request ::ₘ m) s) (hidle : ∀ p ∈ m, ¬ p.IsFleeting) :
    Tracked (h ++ [⟨.createTask request record, s.tasks⟩]) (.created request s.tasks ::ₘ m)
      (s.schedule request record) := by
  have hnew : unfinished (.created request s.tasks ::ₘ m) (s.schedule request record) =
      s.tasks ::ₘ unfinished m s := by
    rw [unfinished_cons_none rfl, unfinished_snoc _ rfl]
  have hold : unfinished (.claimed request ::ₘ m) s = unfinished m s := unfinished_cons_none rfl
  have hmade : madeBy ⟨.createTask request record, s.tasks⟩ = some s.tasks := rfl
  have hdone : doneBy ⟨.createTask request record, s.tasks⟩ = none := rfl
  obtain ⟨hnodup, halive, hmades, hdones, hbackground, hcallbacks, -⟩ := hs
  rw [hold] at hnodup halive
  have hlt : ∀ task ∈ unfinished m s, task < s.tasks := fun task htask =>
    (hmades task).mp ((halive task).mp htask).1
  have hfresh : s.tasks ∉ unfinished m s := fun hmem => (hlt _ hmem).false
  constructor
  case nodup => exact hnew ▸ Multiset.nodup_cons.mpr ⟨hfresh, hnodup⟩
  case alive =>
    intro task
    have hundone : ¬ IsDone h s.tasks := fun h => (hdones _ h).false
    simp only [hnew, Multiset.mem_cons, halive, isMade_snoc, isDone_snoc, hmade, hdone]
    grind
  case made =>
    intro task
    simp only [isMade_snoc, hmades, hmade, Option.some.injEq, LogStore.schedule_tasks]
    omega
  case done =>
    intro task htask
    rw [isDone_snoc, hdone] at htask
    exact (hdones task (htask.resolve_right nofun)).trans (Nat.lt_succ_self _)
  case background =>
    intro task
    have hm := fun request => (not_mem_of_idle hidle request task).1
    simp only [hbackground, hold, hnew, Multiset.mem_cons, LogStore.schedule_background]
    grind
  case callbacks =>
    intro task htask
    rcases hcallbacks task htask with hmem | ⟨request', hmem⟩
    · exact .inl hmem
    · refine absurd ?_ (not_mem_of_idle hidle request' task).2
      exact (Multiset.mem_cons.mp hmem).resolve_left nofun
  case created =>
    intro request' task hmem
    rcases Multiset.mem_cons.mp hmem with heq | hmem
    · cases heq
      exact hnew ▸ Multiset.mem_cons_self _ _
    · exact absurd hmem (not_mem_of_idle hidle request' task).1

theorem Tracked.addBackground {request task : ℕ} (hs : Tracked h (.created request task ::ₘ m) s)
    (hidle : ∀ p ∈ m, ¬ p.IsFleeting) :
    Tracked (h ++ [⟨.addBackground task, ()⟩]) (.added request task ::ₘ m)
      { s with background := insert task s.background } := by
  have hmade : madeBy ⟨.addBackground task, ()⟩ = none := rfl
  have hdone : doneBy ⟨.addBackground task, ()⟩ = none := rfl
  have hsame : unfinished (.added request task ::ₘ m)
      { s with background := insert task s.background } =
        unfinished (.created request task ::ₘ m) s := by
    rw [unfinished_cons_none rfl, unfinished_cons_none rfl]
    rfl
  have htask := hs.created request task (Multiset.mem_cons_self _ _)
  constructor
  case nodup => exact hsame ▸ hs.nodup
  case alive => intro task'; simpa [hsame, hmade, hdone] using hs.alive task'
  case made => intro task'; simpa [hmade] using hs.made task'
  case done => intro task'; simpa [hdone] using hs.done task'
  case background =>
    intro task'
    have hm := fun request => (not_mem_of_idle hidle request task').1
    simp only [hsame, Finset.mem_insert, hs.background, Multiset.mem_cons]
    grind
  case callbacks =>
    intro task' htask'
    rcases Finset.mem_insert.mp htask' with rfl | hmem
    · exact .inr ⟨request, Multiset.mem_cons_self _ _⟩
    · rcases hs.callbacks task' hmem with hmem | ⟨request', hmem⟩
      · exact .inl hmem
      · refine absurd ?_ (not_mem_of_idle hidle request' task').2
        exact (Multiset.mem_cons.mp hmem).resolve_left nofun
  case created =>
    intro request' task' hmem
    refine absurd ?_ (not_mem_of_idle hidle request' task').1
    exact (Multiset.mem_cons.mp hmem).resolve_left nofun

theorem Tracked.addDoneCallback {request task : ℕ} (hs : Tracked h (.added request task ::ₘ m) s)
    (hidle : ∀ p ∈ m, ¬ p.IsFleeting) :
    Tracked (h ++ [⟨.addDoneCallback task, ()⟩]) (.settled request ::ₘ m)
      { s with callbacks := insert task s.callbacks } := by
  have hmade : madeBy ⟨.addDoneCallback task, ()⟩ = none := rfl
  have hdone : doneBy ⟨.addDoneCallback task, ()⟩ = none := rfl
  have hsame : unfinished (.settled request ::ₘ m) { s with callbacks := insert task s.callbacks }
      = unfinished (.added request task ::ₘ m) s := by
    rw [unfinished_cons_none rfl, unfinished_cons_none rfl]
    rfl
  constructor
  case nodup => exact hsame ▸ hs.nodup
  case alive => intro task'; simpa [hsame, hmade, hdone] using hs.alive task'
  case made => intro task'; simpa [hmade] using hs.made task'
  case done => intro task'; simpa [hdone] using hs.done task'
  case background =>
    intro task'
    have hm := fun request => (not_mem_of_idle hidle request task').1
    simp only [hsame, hs.background, Multiset.mem_cons]
    grind
  case callbacks =>
    intro task' htask'
    refine .inl ?_
    rcases hs.callbacks task' htask' with hmem | ⟨request', hmem⟩
    · exact Finset.mem_insert_of_mem hmem
    · rcases Multiset.mem_cons.mp hmem with heq | hmem
      · cases heq
        exact Finset.mem_insert_self _ _
      · exact absurd hmem (not_mem_of_idle hidle request' task').2
  case created =>
    intro request' task' hmem
    refine absurd ?_ (not_mem_of_idle hidle request' task').1
    exact (Multiset.mem_cons.mp hmem).resolve_left nofun

/-- A task that is done leaves the set. -/
theorem Tracked.finishTask {task : ℕ} (hs : Tracked h (.worked task ::ₘ m) s)
    (hidle : ∀ p ∈ m, ¬ p.IsFleeting) :
    Tracked (h ++ [⟨.finishTask task, ()⟩]) (.outside ::ₘ m)
      { s with
        background := if task ∈ s.callbacks then s.background.erase task else s.background } := by
  have hmade : madeBy ⟨.finishTask task, ()⟩ = none := rfl
  have hdone : doneBy ⟨.finishTask task, ()⟩ = some task := rfl
  have hold : unfinished (.worked task ::ₘ m) s = task ::ₘ unfinished m s :=
    unfinished_cons_some rfl
  obtain ⟨hnodup, halive, hmades, hdones, hbackground, hcallbacks, -⟩ := hs
  rw [hold] at hnodup halive
  have hnew : ∀ background, unfinished (.outside ::ₘ m) { s with background } = unfinished m s :=
    fun _ => unfinished_cons_none rfl
  obtain ⟨hfresh, hnodup⟩ := Multiset.nodup_cons.mp hnodup
  -- whoever runs the task has made it before, and no one is about to add it
  have hmem : task ∈ s.background := by
    refine (hbackground task).mpr ⟨hold ▸ Multiset.mem_cons_self _ _, fun request hcreated => ?_⟩
    refine (not_mem_of_idle hidle request task).1 ?_
    exact (Multiset.mem_cons.mp hcreated).resolve_left nofun
  have hcallback : ∀ task' ∈ s.background, task' ∈ s.callbacks := by
    intro task' htask'
    refine (hcallbacks task' htask').resolve_right fun ⟨request, hadded⟩ => ?_
    exact (not_mem_of_idle hidle request task').2 ((Multiset.mem_cons.mp hadded).resolve_left nofun)
  rw [if_pos (hcallback task hmem)]
  constructor
  case nodup => exact hnew _ ▸ hnodup
  case alive =>
    intro task'
    have htask' := halive task'
    simp only [hnew, isMade_snoc, isDone_snoc, hmade, hdone]
    grind
  case made => intro task'; simpa [hmade] using hmades task'
  case done =>
    intro task' htask'
    rcases isDone_snoc.mp htask' with h | h
    · exact hdones task' h
    · obtain rfl : task = task' := Option.some.inj h
      exact (hmades task).mp ((halive task).mp (Multiset.mem_cons_self _ _)).1
  case background =>
    intro task'
    have hm := fun request => (not_mem_of_idle hidle request task').1
    simp only [hnew, Finset.mem_erase, hbackground, hold, Multiset.mem_cons]
    grind
  case callbacks =>
    exact fun task' htask' => .inl (hcallback task' (Finset.mem_of_mem_erase htask'))
  case created =>
    intro request' task' hcreated
    refine absurd ?_ (not_mem_of_idle hidle request' task').1
    exact (Multiset.mem_cons.mp hcreated).resolve_left nofun

theorem Tracked.move (hs : Tracked h (p ::ₘ m) s) (hidle : ∀ p ∈ m, ¬ p.IsFleeting)
    (hmove : Moves s p e q t) : Tracked (h ++ [e]) (q ::ₘ m) t := by
  have hsame : ∀ {p q : Place} {t : LogStore}, p.task = q.task → t.scheduled = s.scheduled →
      unfinished (q ::ₘ m) t = unfinished (p ::ₘ m) s := by
    intro p q t htask hscheduled
    cases hp : p.task with
    | none =>
      rw [unfinished_cons_none hp, unfinished_cons_none (htask ▸ hp), unfinished, hscheduled]
      rfl
    | some task =>
      rw [unfinished_cons_some hp, unfinished_cons_some (htask ▸ hp), unfinished, hscheduled]
      rfl
  cases hmove with
  | newRequest =>
    exact hs.quiet hidle rfl rfl (hsame rfl rfl) rfl rfl rfl not_false not_false
  | takeTask hscheduled =>
    exact hs.quiet hidle rfl rfl (unfinished_takeTask hscheduled) rfl rfl rfl not_false not_false
  | plain hserves hplain =>
    have hadding : ¬ p.IsAdding := by rcases hserves with rfl | rfl <;> exact not_false
    refine hs.quiet hidle ?_ ?_ (hsame rfl rfl) rfl rfl rfl hadding hadding
    all_goals rcases hplain with rfl | rfl | ⟨_, rfl⟩ <;> rfl
  | getLogged hserves =>
    have hadding : ¬ p.IsAdding := by rcases hserves with rfl | rfl <;> exact not_false
    refine hs.quiet hidle rfl rfl (hsame ?_ rfl) rfl rfl rfl hadding ?_
    · rcases hserves with rfl | rfl <;> split <;> rfl
    · split <;> exact not_false
  | setLogged => exact hs.quiet hidle rfl rfl (hsame rfl rfl) rfl rfl rfl not_false not_false
  | logged hends =>
    cases hends <;>
      exact hs.quiet hidle rfl rfl (hsame rfl rfl) rfl rfl rfl not_false not_false
  | worked hends =>
    cases hends <;>
      exact hs.quiet hidle rfl rfl (hsame rfl rfl) rfl rfl rfl not_false not_false
  | createTask => exact hs.createTask hidle
  | addBackground => exact hs.addBackground hidle
  | addDoneCallback => exact hs.addDoneCallback hidle
  | finishTask => exact hs.finishTask hidle

end tracked

/-! ## Every run -/

abbrev LogStance := Stance Command Place

/-- What the tasks wait for is slow. -/
def Waits (x : LogStance) : Prop := ∀ c, x.waits = some c → discipline.allows x.state c ∧ IsSlow c

structure Kept (h : List LogEvent) (m : Multiset LogStance) (s : LogStore) : Prop where
  counted : Counted h (m.map Stance.state) s
  tracked : Tracked h (m.map Stance.state) s
  waits : ∀ x ∈ m, Waits x

section kept
variable {h : List LogEvent} {m : Multiset LogStance} {s t : LogStore} {p : Place} {i : ℕ}

theorem Kept.idle {x : LogStance} (hs : Kept h (x ::ₘ m) s) (hidle : Idle m) :
    ∀ p ∈ m.map Stance.state, ¬ p.IsFleeting := by
  intro p hp
  obtain ⟨y, hy, rfl⟩ := Multiset.mem_map.mp hp
  obtain ⟨c, hc⟩ := Option.ne_none_iff_exists'.mp (hidle y hy)
  obtain ⟨hallows, hslow⟩ := hs.waits y (Multiset.mem_cons_of_mem hy) c hc
  exact not_isFleeting hallows hslow

/-- A task goes on. -/
theorem Kept.move {x : LogStance} {e : LogEvent} {q : Place} (hs : Kept h (x ::ₘ m) s)
    (hidle : Idle m) (hmove : Moves s x.state e q t) : Kept (h ++ [e]) (⟨i, q, none⟩ ::ₘ m) t where
  counted := by
    have hcounted := hs.counted
    rw [Multiset.map_cons] at hcounted ⊢
    exact hcounted.move (hs.idle hidle) hmove
  tracked := by
    have htracked := hs.tracked
    rw [Multiset.map_cons] at htracked ⊢
    exact htracked.move (hs.idle hidle) hmove
  waits y hy := by
    rcases Multiset.mem_cons.mp hy with rfl | hy
    · exact nofun
    · exact hs.waits y (Multiset.mem_cons_of_mem hy)

/-! A task begins outside, and ends there or with its request. -/

theorem Counted.start {m : Multiset Place} (hs : Counted h m s) : Counted h (.outside ::ₘ m) s where
  once request := by
    rw [Multiset.countP_cons_of_neg _ (by exact Bool.false_ne_true)]
    exact hs.once request
  unlogged request hmem := hs.unlogged request ((Multiset.mem_cons.mp hmem).resolve_left nofun)
  flag p hp request heq := by
    rcases Multiset.mem_cons.mp hp with rfl | hp
    · cases heq
    · exact hs.flag p hp request heq
  documents := hs.documents

theorem Counted.finish {m : Multiset Place} (hs : Counted h (p ::ₘ m) s)
    (hp : ∀ request, p.owes request = false) : Counted h m s where
  once request := by
    have hone := hs.once request
    rwa [Multiset.countP_cons_of_neg _ (by simp [hp])] at hone
  unlogged request hmem := hs.unlogged request (Multiset.mem_cons_of_mem hmem)
  flag p' hp' := hs.flag p' (Multiset.mem_cons_of_mem hp')
  documents := hs.documents

/-- A task that neither is one of `create_task` nor has made one does not count. -/
theorem tracked_cons {m : Multiset Place} (htask : p.task = none) (hp : ¬ p.IsAdding) :
    Tracked h (p ::ₘ m) s ↔ Tracked h m s := by
  have hsame : unfinished (p ::ₘ m) s = unfinished m s := unfinished_cons_none htask
  have hcons : ∀ q : Place, q.IsAdding → (q ∈ p ::ₘ m ↔ q ∈ m) := fun q hq => by
    rw [Multiset.mem_cons, or_iff_right fun (heq : q = p) => hp (heq ▸ hq)]
  have hcreated := fun request task => hcons (.created request task) trivial
  have hadded := fun request task => hcons (.added request task) trivial
  constructor
  all_goals
    rintro ⟨hnodup, halive, hmades, hdones, hbackground, hcallbacks, hmem⟩
    constructor
    all_goals simp only [hsame, hcreated, hadded] at *
    all_goals assumption

/-- What a task has left to do when it ends: nothing. -/
theorem EndsWith.spent {call : Call} {r : Except Failure call.Value} (hp : EndsWith call r p) :
    (∀ request, p.owes request = false) ∧ p.task = none ∧ ¬ p.IsAdding := by
  have hserves : ∀ {request : ℕ}, Serves request p →
      (∀ request, p.owes request = false) ∧ p.task = none ∧ ¬ p.IsAdding := by
    intro request hserves
    rcases hserves with rfl | rfl <;> exact ⟨fun _ => rfl, rfl, not_false⟩
  match call, r, hp with
  | .serve _ _ _, .ok (_, _), hp => exact hserves hp.2.1
  | .serve _ _ _, .error _, ⟨_, hp, _⟩ => exact hserves hp
  | .runTask, _, hp =>
    obtain rfl : p = .outside := hp
    exact ⟨fun _ => rfl, rfl, not_false⟩

theorem maintains : Maintains (V := Call.Value) (ε := Failure) logKernel discipline
    (fun _ => .outside) EndsWith Kept where
  start i b hidle hs := by
    refine ⟨?_, ?_, fun x hx => ?_⟩
    · rw [Multiset.map_cons]
      exact hs.counted.start
    · rw [Multiset.map_cons]
      exact (tracked_cons (p := .outside) rfl not_false).mpr hs.tracked
    · rcases Multiset.mem_cons.mp hx with rfl | hx
      · exact nofun
      · exact hs.waits x hx
  answer hidle hs hallows hanswer := hs.move hidle (moves_of_answer hallows hanswer)
  suspend hidle hs hallows hsuspend := by
    obtain ⟨hsuspends, rfl⟩ := hsuspend
    refine ⟨by simpa using hs.counted, by simpa using hs.tracked, fun x hx c hc => ?_⟩
    rcases Multiset.mem_cons.mp hx with rfl | hx
    · cases hc
      exact ⟨hallows, isSlow_of_suspends hsuspends⟩
    · exact hs.waits x (Multiset.mem_cons_of_mem hx) c hc
  resume hidle hs hallows hresume := hs.move hidle (moves_of_ends hallows hresume)
  finish hidle hs hends := by
    obtain ⟨howes, htask, hadding⟩ := EndsWith.spent hends
    have hcounted := hs.counted
    have htracked := hs.tracked
    rw [Multiset.map_cons] at hcounted htracked
    exact ⟨hcounted.finish howes, (tracked_cons htask hadding).mp htracked,
      fun x hx => hs.waits x (Multiset.mem_cons_of_mem hx)⟩

theorem kept_fresh : Kept [] 0 {} where
  counted := ⟨by simp [attempts, due], by simp, by simp, by simp [documentsOf]⟩
  tracked := ⟨by simp [unfinished], by simp [unfinished, IsMade], by simp [IsMade],
    by simp [IsDone], by simp [unfinished], by simp, by simp⟩
  waits := by simp

end kept

/-- The request is being logged. -/
def isLogging (request : ℕ) : Option Command → Bool
  | some (.doLogApiCall request' _) => request' = request
  | _ => false

def underWay (l : LogLoop) (request : ℕ) : ℕ :=
  l.waiting.countP fun task => isLogging request task.rest.command

section runs
variable {tr : List (Transition LogLoop LogLabel)} {l l' : LogLoop} {request : ℕ}

theorem kept (hrun : Run LogStep (Loop.fresh {}) tr l) : Loop.Keeps discipline EndsWith Kept l :=
  Loop.maintained body_obeys maintains kept_fresh hrun

theorem Waits.owes_eq {x : LogStance} (hx : Waits x) (hwaits : x.waits ≠ none) :
    x.state.owes request = isLogging request x.waits := by
  obtain ⟨i, p, waits⟩ := x
  obtain ⟨c, rfl⟩ := Option.ne_none_iff_exists'.mp hwaits
  obtain ⟨hallows, hslow⟩ := hx c rfl
  cases c with
  | doLogApiCall request' record =>
    cases p with
    | claimed | working =>
      obtain rfl := hallows
      rfl
    | _ => exact hallows.elim
  | await | readChunks | takeTask | finishTask => cases p <;> first | rfl | exact hallows.elim
  | _ => exact hslow.elim

theorem underWay_eq {running waiting : List LogStance}
    (hmatch : Loop.Matched discipline EndsWith l running waiting)
    (hwaits : ∀ x ∈ (waiting : Multiset LogStance), Waits x) :
    underWay l request =
      ((waiting : Multiset LogStance).map Stance.state).countP fun p => p.owes request := by
  rw [underWay, hmatch.countP_eq (isLogging request), Multiset.countP_map,
    ← Multiset.countP_eq_card_filter, Multiset.coe_countP]
  refine List.countP_congr fun x hx => ?_
  rw [(hwaits x (Multiset.mem_coe.mpr hx)).owes_eq (hmatch.idle x (Multiset.mem_coe.mpr hx))]
  simp

/-- In every run, a request is logged at most once, whatever middlewares it passes. -/
theorem logged_once (hrun : Run LogStep (Loop.fresh {}) tr l) (request : ℕ) :
    documentsOf l.store request ≤ attempts l.history request ∧
      attempts l.history request ≤ 1 := by
  obtain ⟨running, waiting, hmatch, hkept⟩ := kept hrun
  have hone := hkept.counted.once request
  refine ⟨hkept.counted.documents request, ?_⟩
  split at hone <;> omega

theorem logged_mono {x : LogLabel} (hstep : LogStep l x l') (hmem : request ∈ l.store.logged) :
    request ∈ l'.store.logged := by
  have hends : ∀ {s t : LogStore} {c : Command} {r : c.Reply}, s.Ends c r t →
      request ∈ s.logged → request ∈ t.logged := by
    intro s t c r h hmem
    cases h <;> exact hmem
  cases hstep with
  | start | finish => exact hmem
  | suspend _ hsuspend =>
    obtain ⟨-, rfl⟩ := hsuspend
    exact hmem
  | resume _ _ hresume => exact hends hresume hmem
  | answer _ hanswer =>
    cases hanswer with
    | ends h => exact hends h hmem
    | setLogged => exact Finset.mem_insert_of_mem hmem
    | _ => exact hmem

variable {i : ℕ} {layers : List Layer} {app : ℕ → M Response} {isApp : IsApp app}

/-- Who was answered through a middleware has the flag. -/
theorem answered_flagged {response : Response} (hrun : Run LogStep (Loop.fresh {}) tr l)
    (hstep : LogStep l (.finish i (.serve layers app isApp) (.ok (request, response))) l')
    (hlayers : layers ≠ []) : request ∈ l.store.logged := by
  obtain ⟨m, p, -, hkept, hends⟩ := (kept hrun).finish hstep
  obtain rfl := hends.1 hlayers
  refine hkept.counted.flag (.settled request) ?_ request rfl
  rw [Multiset.map_cons]
  exact Multiset.mem_cons_self _ _

/-- In every run, once a request has been answered through a middleware, and whenever no task runs,
it has been logged, or is being logged, or there is a task that will log it: one of these, and
once. It has been logged when the one attempt at its document has been made, also if it failed. -/
theorem answered_logged {response : Response} (hrun : Run LogStep (Loop.fresh {}) tr l)
    (hidle : l.running = none) (hlayers : layers ≠ [])
    (hanswered : ∃ x ∈ tr,
      x.label = .finish i (.serve layers app isApp) (.ok (request, response))) :
    attempts l.history request + underWay l request + due l.store request = 1 := by
  obtain ⟨⟨before, label, after⟩, hmem, rfl⟩ := hanswered
  obtain ⟨past, future, rfl⟩ := List.append_of_mem hmem
  obtain ⟨l₁, hpast, hrest⟩ := hrun.append_inv
  obtain ⟨rfl, hstep, hfuture⟩ := hrest.cons_inv
  have hflag : request ∈ l.store.logged := hfuture.invariant
    (I := fun l => request ∈ l.store.logged) (fun _ _ _ hmem hstep => logged_mono hstep hmem)
    (logged_mono hstep (answered_flagged hpast hstep hlayers))
  obtain ⟨running, waiting, hmatch, hkept⟩ := kept hrun
  obtain rfl := hmatch.running_nil hidle
  rw [Multiset.coe_nil, zero_add] at hkept
  have hone := hkept.counted.once request
  rwa [if_pos hflag, ← underWay_eq hmatch hkept.waits] at hone

/-- In every run, whenever no task runs, `_background_tasks` holds the tasks that have been made and
are not done, and each has its callback. -/
theorem background_eq (hrun : Run LogStep (Loop.fresh {}) tr l) (hidle : l.running = none)
    (task : ℕ) : (task ∈ l.store.background ↔ IsMade l.history task ∧ ¬ IsDone l.history task) ∧
      (task ∈ l.store.background → task ∈ l.store.callbacks) := by
  obtain ⟨running, waiting, hmatch, hkept⟩ := kept hrun
  obtain rfl := hmatch.running_nil hidle
  rw [Multiset.coe_nil, zero_add] at hkept
  have hnone : ∀ p ∈ (waiting : Multiset LogStance).map Stance.state, ¬ p.IsFleeting := by
    intro p hp
    obtain ⟨x, hx, rfl⟩ := Multiset.mem_map.mp hp
    obtain ⟨c, hc⟩ := Option.ne_none_iff_exists'.mp (hmatch.idle x hx)
    exact not_isFleeting (hkept.waits x hx c hc).1 (hkept.waits x hx c hc).2
  have htracked := hkept.tracked
  constructor
  · rw [htracked.background, htracked.alive]
    exact and_iff_left fun request => (not_mem_of_idle hnone request task).1
  · intro hmem
    refine (htracked.callbacks task hmem).resolve_right fun ⟨request, hadded⟩ => ?_
    exact (not_mem_of_idle hnone request task).2 hadded

end runs

/-! ## A request that is answered before it is logged -/

def sampleLayer : Layer where
  rt := sampleRuntime
  numbers := sampleNumbers
  stores := ⟨⟨fun _ => .neverReuse, .neverReuse, fun _ => .neverReuse⟩, fun _ => .neverReuse⟩
  alloc _ := .neverReuse
  allocator := .neverReuse
  received := none
  requestPartner := none
  systemPartner := none
  call := sampleCall
  text := ""

def sampleResponse : Response := ⟨200, [], .bytes (bytesOf "ok")⟩

def sampleApp (_ : ℕ) : M Response := .ret sampleResponse

theorem isApp_sampleApp : IsApp sampleApp := fun _ => trivial

/-- A request is answered; the task that will log it has not begun. -/
theorem exists_run_answered : ∃ tr l l', Run LogStep (Loop.fresh {}) tr l ∧
    LogStep l (.finish 0 (.serve [sampleLayer] sampleApp isApp_sampleApp) (.ok (0, sampleResponse)))
      l' ∧ l'.running = none ∧ due l'.store 0 = 1 ∧ 0 ∈ l'.store.background := by
  have hstart : Run LogStep (Loop.fresh {}) _ _ :=
    .single (.start (b := .serve [sampleLayer] sampleApp isApp_sampleApp) rfl)
  have hread := (hstart.snoc (.answer rfl .newRequest)).snoc
    (.answer (r := .ok ()) rfl (.ends .await))
  have hflag := (hread.snoc (.answer rfl .getLogged)).snoc (.answer rfl .setLogged)
  have hadded := (hflag.snoc (.answer rfl .createTask)).snoc (.answer rfl .addBackground)
  have hdone := hadded.snoc (.answer rfl .addDoneCallback)
  exact ⟨_, _, _, hdone, .finish rfl rfl, rfl, rfl, Finset.mem_insert_self _ _⟩

theorem logged_once_sample : ∃ tr l, Run LogStep (Loop.fresh {}) tr l ∧ due l.store 0 = 1 ∧
    documentsOf l.store 0 ≤ attempts l.history 0 ∧ attempts l.history 0 ≤ 1 := by
  obtain ⟨tr, l, l', hrun, hstep, hidle, hdue, -⟩ := exists_run_answered
  exact ⟨_, l', hrun.snoc hstep, hdue, logged_once (hrun.snoc hstep) 0⟩

theorem answered_logged_sample : ∃ tr l, Run LogStep (Loop.fresh {}) tr l ∧ due l.store 0 = 1 ∧
    attempts l.history 0 + underWay l 0 + due l.store 0 = 1 := by
  obtain ⟨tr, l, l', hrun, hstep, hidle, hdue, -⟩ := exists_run_answered
  exact ⟨_, l', hrun.snoc hstep, hdue, answered_logged (hrun.snoc hstep) hidle
    (List.cons_ne_nil sampleLayer []) ⟨_, List.mem_concat_self, rfl⟩⟩

theorem background_eq_sample : ∃ tr l, Run LogStep (Loop.fresh {}) tr l ∧ l.running = none ∧
    0 ∈ l.store.background ∧ IsMade l.history 0 ∧ ¬ IsDone l.history 0 := by
  obtain ⟨tr, l, l', hrun, hstep, hidle, -, hmem⟩ := exists_run_answered
  exact ⟨_, l', hrun.snoc hstep, hidle, hmem,
    (background_eq (hrun.snoc hstep) hidle 0).1.mp hmem⟩

end BaseWebService.Middleware.LogOnce
