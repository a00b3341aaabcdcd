import BaseWebService.Library.Dialogue

/-!
# Event loops

An event loop runs its tasks on one thread: a task that runs goes on until one of its commands
makes it wait, and only then may another one start or go on. Which task that is, and how a command
with several outcomes ends, is open, so every order in which an event loop can run its tasks is a
run.

A command makes a task wait only if the store says so. `Alone` is the meaning of a program that
never waits, and `Loop.alone` the rule of this module: if every task is such a program from the
stores in which tasks begin, then no task ever waits for another, and what each of them keeps by
itself holds throughout every run.

## Main definitions

* `AsyncLock` : a lock that tasks queue for, with its three operations.
* `Kernel`, `Loop`, `Loop.Step` : a shared store, an event loop over it, and what may happen next.
* `Alone` : a program that runs to its end without waiting.
-/

namespace BaseWebService.Library

/-! ## Locks -/

/-- A lock, with the tasks that wait for it, the first one first, and whether they have been woken
up. -/
structure AsyncLock where
  locked : Bool := false
  waiters : List (ℕ × Bool) := []

namespace AsyncLock

/-- The lock is given to whoever asks for it. -/
def Free (lock : AsyncLock) : Prop := lock.locked = false ∧ lock.waiters = []

def take (lock : AsyncLock) : AsyncLock := { lock with locked := true }

/-- A task joins the queue. -/
def wait (lock : AsyncLock) (i : ℕ) : AsyncLock :=
  { lock with waiters := lock.waiters ++ [(i, false)] }

/-- A task that has been woken up leaves the queue with the lock. -/
def Wakes (lock : AsyncLock) (i : ℕ) (lock' : AsyncLock) : Prop :=
  ∃ before after, lock.waiters = before ++ (i, true) :: after ∧
    lock' = { locked := true, waiters := before ++ after }

/-- Give the lock back and wake the first in the queue. -/
def release (lock : AsyncLock) : AsyncLock where
  locked := false
  waiters := match lock.waiters with
    | [] => []
    | (i, _) :: waiters => (i, true) :: waiters

theorem free_new : Free {} := ⟨rfl, rfl⟩

end AsyncLock

/-! ## The loop -/

variable {C : Type} {R : C → Type} {ε α β σ B : Type} {V : B → Type}

/-- How a shared store takes a command of a task: it may answer, or make the task wait, or answer a
task that has been waiting. -/
structure Kernel (C : Type) (R : C → Type) (σ : Type) where
  answer (i : ℕ) (c : C) (s : σ) (r : R c) (t : σ) : Prop
  suspend (i : ℕ) (c : C) (s t : σ) : Prop
  resume (i : ℕ) (c : C) (s : σ) (r : R c) (t : σ) : Prop

/-- How a program has ended, if it has. -/
def Prog.result? : Prog C R ε α → Option (Except ε α)
  | .ret a => some (.ok a)
  | .raise e => some (.error e)
  | .call _ _ => none

/-- What was called, and what is left to do of it. -/
structure LoopTask (C : Type) (R : C → Type) (ε : Type) (V : B → Type) where
  id : ℕ
  called : B
  rest : Prog C R ε (V called)

/-- An event loop; the commands that were answered are kept in the order of the answers. -/
structure Loop (C : Type) (R : C → Type) (ε σ : Type) (V : B → Type) where
  store : σ
  history : List (Event C R)
  running : Option (LoopTask C R ε V)
  waiting : List (LoopTask C R ε V)
  nextId : ℕ

namespace Loop

inductive Label (C : Type) (R : C → Type) (ε : Type) (V : B → Type) where
  | start (i : ℕ) (b : B)
  | answer (i : ℕ) (c : C) (r : R c)
  | suspend (i : ℕ) (c : C)
  | resume (i : ℕ) (c : C) (r : R c)
  | finish (i : ℕ) (b : B) (r : Except ε (V b))

variable (K : Kernel C R σ) (body : (b : B) → Prog C R ε (V b))

/-- Only when no task runs may one start or go on. -/
inductive Step : Loop C R ε σ V → Label C R ε V → Loop C R ε σ V → Prop where
  | start {l : Loop C R ε σ V} {b : B} : l.running = none →
      Step l (.start l.nextId b)
        { l with running := some ⟨l.nextId, b, body b⟩, nextId := l.nextId + 1 }
  | answer {l : Loop C R ε σ V} {i : ℕ} {b : B} {c : C} {k : R c → Prog C R ε (V b)} {r : R c}
      {t : σ} : l.running = some ⟨i, b, .call c k⟩ → K.answer i c l.store r t →
      Step l (.answer i c r)
        { l with store := t, history := l.history ++ [⟨c, r⟩], running := some ⟨i, b, k r⟩ }
  | suspend {l : Loop C R ε σ V} {i : ℕ} {b : B} {c : C} {k : R c → Prog C R ε (V b)} {t : σ} :
      l.running = some ⟨i, b, .call c k⟩ → K.suspend i c l.store t →
      Step l (.suspend i c)
        { l with store := t, running := none, waiting := l.waiting ++ [⟨i, b, .call c k⟩] }
  | resume {l : Loop C R ε σ V} {i : ℕ} {b : B} {c : C} {k : R c → Prog C R ε (V b)} {r : R c}
      {t : σ} {before after : List (LoopTask C R ε V)} : l.running = none →
      l.waiting = before ++ ⟨i, b, .call c k⟩ :: after → K.resume i c l.store r t →
      Step l (.resume i c r)
        { l with
          store := t, history := l.history ++ [⟨c, r⟩], running := some ⟨i, b, k r⟩,
          waiting := before ++ after }
  | finish {l : Loop C R ε σ V} {i : ℕ} {b : B} {p : Prog C R ε (V b)} {r : Except ε (V b)} :
      l.running = some ⟨i, b, p⟩ → p.result? = some r →
      Step l (.finish i b r) { l with running := none }

/-- A loop in which nothing has been called. -/
def fresh (s : σ) : Loop C R ε σ V := ⟨s, [], none, [], 0⟩

end Loop

/-! ## Programs that never wait -/

section alone
variable (K : Kernel C R σ) (A : List (Event C R) → σ → Prop)

/-- Run by task `i`, the program never waits; `A` holds before each of its commands and at its end,
and `Q` of the way it ends. -/
def Alone (i : ℕ) (Q : Except ε α → List (Event C R) → σ → Prop) :
    Prog C R ε α → List (Event C R) → σ → Prop
  | .ret a, h, s => A h s ∧ Q (.ok a) h s
  | .raise e, h, s => A h s ∧ Q (.error e) h s
  | .call c k, h, s => A h s ∧ (∀ t, ¬ K.suspend i c s t) ∧
      ∀ r t, K.answer i c s r t → Alone i Q (k r) (h ++ [⟨c, r⟩]) t

variable {K A} {i : ℕ} {h : List (Event C R)} {s : σ}

theorem Alone.always {Q : Except ε α → List (Event C R) → σ → Prop} {p : Prog C R ε α}
    (hp : Alone K A i Q p h s) : A h s := by
  cases p with
  | ret | raise | call => exact hp.1

theorem Alone.result {Q : Except ε α → List (Event C R) → σ → Prop} {p : Prog C R ε α}
    {r : Except ε α} (hp : Alone K A i Q p h s) (hr : p.result? = some r) : Q r h s := by
  cases p with
  | ret a =>
    obtain rfl := Option.some_inj.mp hr
    exact hp.2
  | raise e =>
    obtain rfl := Option.some_inj.mp hr
    exact hp.2
  | call c k => simp [Prog.result?] at hr

/-- The rule of consequence. -/
theorem Alone.mono {Q Q' : Except ε α → List (Event C R) → σ → Prop} {p : Prog C R ε α}
    (hp : Alone K A i Q p h s) (hQ : ∀ r h s, Q r h s → Q' r h s) : Alone K A i Q' p h s := by
  induction p generalizing h s with
  | ret a => exact ⟨hp.1, hQ _ _ _ hp.2⟩
  | raise e => exact ⟨hp.1, hQ _ _ _ hp.2⟩
  | call c k ih => exact ⟨hp.1, hp.2.1, fun r t hanswer => ih r (hp.2.2 r t hanswer)⟩

/-- The rule of sequence. -/
theorem Alone.bind {Q : Except ε α → List (Event C R) → σ → Prop}
    {Q' : Except ε β → List (Event C R) → σ → Prop} {p : Prog C R ε α} {f : α → Prog C R ε β}
    (hp : Alone K A i Q p h s) (hok : ∀ a h s, Q (.ok a) h s → Alone K A i Q' (f a) h s)
    (herror : ∀ e h s, A h s → Q (.error e) h s → Q' (.error e) h s) :
    Alone K A i Q' (p >>= f) h s := by
  induction p generalizing h s with
  | ret a => exact hok a h s hp.2
  | raise e => exact ⟨hp.1, herror e h s hp.1 hp.2⟩
  | call c k ih => exact ⟨hp.1, hp.2.1, fun r t hanswer => ih r (hp.2.2 r t hanswer)⟩

/-- The rule of exception handlers. -/
theorem Alone.handle {Q Q' : Except ε α → List (Event C R) → σ → Prop} {p : Prog C R ε α}
    {f : ε → Prog C R ε α} (hp : Alone K A i Q p h s)
    (hok : ∀ a h s, A h s → Q (.ok a) h s → Q' (.ok a) h s)
    (herror : ∀ e h s, Q (.error e) h s → Alone K A i Q' (f e) h s) :
    Alone K A i Q' (p.handle f) h s := by
  induction p generalizing h s with
  | ret a => exact ⟨hp.1, hok a h s hp.1 hp.2⟩
  | raise e => exact herror e h s hp.2
  | call c k ih => exact ⟨hp.1, hp.2.1, fun r t hanswer => ih r (hp.2.2 r t hanswer)⟩

end alone

/-! ## The rule for loops -/

namespace Loop

variable {K : Kernel C R σ} {body : (b : B) → Prog C R ε (V b)}
  {A : B → List (Event C R) → σ → Prop} {I : List (Event C R) → σ → Prop}
  {Q : (b : B) → Except ε (V b) → List (Event C R) → σ → Prop}

/-- No task waits, and the one that runs will come to its end without waiting. -/
structure Undisturbed (K : Kernel C R σ) (A : B → List (Event C R) → σ → Prop)
    (I : List (Event C R) → σ → Prop)
    (Q : (b : B) → Except ε (V b) → List (Event C R) → σ → Prop) (l : Loop C R ε σ V) : Prop where
  waiting : l.waiting = []
  idle : l.running = none → I l.history l.store
  busy : ∀ i b p, l.running = some ⟨i, b, p⟩ →
    Alone K (A b) i (fun r h s => I h s ∧ Q b r h s) p l.history l.store

theorem Undisturbed.step {l l' : Loop C R ε σ V} {x : Label C R ε V}
    (hbody : ∀ i b h s, I h s → Alone K (A b) i (fun r h s => I h s ∧ Q b r h s) (body b) h s)
    (hl : Undisturbed K A I Q l) (hstep : Step K body l x l') : Undisturbed K A I Q l' := by
  cases hstep with
  | start hidle =>
    refine ⟨hl.waiting, by simp, fun i b p hrunning => ?_⟩
    cases hrunning
    exact hbody _ _ _ _ (hl.idle hidle)
  | answer hrunning hanswer =>
    refine ⟨hl.waiting, by simp, fun i b p hrunning' => ?_⟩
    cases hrunning'
    exact (hl.busy _ _ _ hrunning).2.2 _ _ hanswer
  | suspend hrunning hsuspend => exact absurd hsuspend ((hl.busy _ _ _ hrunning).2.1 _)
  | resume _ hwaiting _ =>
    -- nobody waits, so nobody is woken up
    rw [hl.waiting] at hwaiting
    simp at hwaiting
  | finish hrunning hresult =>
    refine ⟨hl.waiting, fun _ => ((hl.busy _ _ _ hrunning).result hresult).1, by simp⟩

/-- Tasks that never wait when they run alone never wait in a loop either. -/
theorem alone
    (hbody : ∀ i b h s, I h s → Alone K (A b) i (fun r h s => I h s ∧ Q b r h s) (body b) h s)
    {s₀ : σ} (hinit : I [] s₀) {tr : List (Transition (Loop C R ε σ V) (Label C R ε V))}
    {l : Loop C R ε σ V} (hrun : Run (Step K body) (fresh s₀) tr l) : Undisturbed K A I Q l :=
  hrun.invariant (fun _ _ _ hl hstep => hl.step hbody hstep)
    ⟨rfl, fun _ => hinit, by simp [fresh]⟩

/-- How a call ends in a loop is how it ends alone. -/
theorem Undisturbed.finish {l l' : Loop C R ε σ V} {i : ℕ} {b : B} {r : Except ε (V b)}
    (hl : Undisturbed K A I Q l) (hstep : Step K body l (.finish i b r) l') :
    Q b r l.history l.store := by
  cases hstep with
  | finish hrunning hresult => exact ((hl.busy _ _ _ hrunning).result hresult).2

end Loop

end BaseWebService.Library
