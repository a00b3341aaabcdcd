import Mathlib.Data.Multiset.Basic
import Mathlib.Data.List.Count

/-!
# Semaphores of an event loop

`asyncio.Semaphore`: a number of permits and a queue of tasks that wait for one. A permit that comes
free is handed to the first task in the queue that still waits for it, which leaves the queue only
when it runs again; until then it may be cancelled, and gives the permit back.

What is counted is `free`: the permits nobody has taken away yet, those that are handed over
included. `Alert` is why no task is forgotten: as long as somebody waits and a permit is there, a
task that has been woken is about to run, and wakes the next.
-/

namespace BaseWebService.Library

/-- What has become of the future a task waits for. -/
inductive Ticket where
  | pending
  | granted
  | cancelled
  deriving DecidableEq

/-- The tasks in the queue stand in the order in which they came. -/
structure AsyncSemaphore where
  value : ℕ
  waiters : List (ℕ × Ticket) := []

namespace AsyncSemaphore

/-- `locked()`. -/
def Locked (s : AsyncSemaphore) : Prop := s.value = 0 ∨ ∃ w ∈ s.waiters, w.2 ≠ .cancelled

instance (s : AsyncSemaphore) : Decidable s.Locked :=
  inferInstanceAs (Decidable (s.value = 0 ∨ ∃ w ∈ s.waiters, w.2 ≠ .cancelled))

def take (s : AsyncSemaphore) : AsyncSemaphore := { s with value := s.value - 1 }

/-- A task joins the queue. -/
def wait (s : AsyncSemaphore) (i : ℕ) : AsyncSemaphore :=
  { s with waiters := s.waiters ++ [(i, .pending)] }

/-- The first ticket that is pending is granted, if there is one. -/
def grantFirst : List (ℕ × Ticket) → Option (List (ℕ × Ticket))
  | [] => none
  | (i, .pending) :: waiters => some ((i, .granted) :: waiters)
  | w :: waiters => (grantFirst waiters).map (w :: ·)

/-- `_wake_up_next()`. -/
def wakeUpNext (s : AsyncSemaphore) : AsyncSemaphore :=
  match grantFirst s.waiters with
  | some waiters => ⟨s.value - 1, waiters⟩
  | none => s

def release (s : AsyncSemaphore) : AsyncSemaphore := wakeUpNext { s with value := s.value + 1 }

/-- A pending ticket of the task is cancelled; one that is granted stays granted. -/
def cancel (s : AsyncSemaphore) (i : ℕ) : AsyncSemaphore where
  value := s.value
  waiters := s.waiters.map fun w => if w = (i, .pending) then (i, .cancelled) else w

/-- A task leaves the queue: with a permit, or cancelled. A permit that is left is passed on. -/
inductive Leaves (s : AsyncSemaphore) (i : ℕ) : Bool → AsyncSemaphore → Prop where
  | granted {before after : List (ℕ × Ticket)} : s.waiters = before ++ (i, .granted) :: after →
      Leaves s i true
        (if 0 < s.value then wakeUpNext ⟨s.value, before ++ after⟩ else ⟨s.value, before ++ after⟩)
  | givenBack {before after : List (ℕ × Ticket)} : s.waiters = before ++ (i, .granted) :: after →
      Leaves s i false (release ⟨s.value, before ++ after⟩)
  | cancelled {before after : List (ℕ × Ticket)} : s.waiters = before ++ (i, .cancelled) :: after →
      Leaves s i false ⟨s.value, before ++ after⟩

/-! ## What is counted -/

def isGranted (w : ℕ × Ticket) : Bool := w.2 = .granted

/-- The permits that no task has taken away yet. -/
def free (s : AsyncSemaphore) : ℕ := s.value + s.waiters.countP isGranted

/-- The tasks in the queue. -/
def queue (s : AsyncSemaphore) : Multiset ℕ := s.waiters.map Prod.fst

/-- Somebody waits for a permit. -/
def Wanted (s : AsyncSemaphore) : Prop := ∃ i, (i, Ticket.pending) ∈ s.waiters

/-- Where a permit is left and wanted, a task that has been woken will pass it on. -/
def Alert (s : AsyncSemaphore) : Prop :=
  0 < s.value → s.Wanted → ∃ i, (i, Ticket.granted) ∈ s.waiters

theorem grantFirst_cases (waiters : List (ℕ × Ticket)) :
    (grantFirst waiters = none ∧ ∀ i, (i, Ticket.pending) ∉ waiters) ∨
      ∃ before i after, waiters = before ++ (i, .pending) :: after ∧
        grantFirst waiters = some (before ++ (i, .granted) :: after) := by
  induction waiters with
  | nil => exact Or.inl ⟨rfl, by simp⟩
  | cons w waiters ih =>
    obtain ⟨j, ticket⟩ := w
    cases ticket with
    | pending => exact Or.inr ⟨[], j, waiters, rfl, rfl⟩
    | granted | cancelled =>
      rcases ih with ⟨hnone, hpending⟩ | ⟨before, i, after, rfl, hsome⟩
      · exact Or.inl ⟨by simp [grantFirst, hnone], by simpa using hpending⟩
      · exact Or.inr ⟨_ :: before, i, after, rfl, by simp [grantFirst, hsome]⟩

/-- What waking does: nothing where nobody waits, and else the first who waits is handed a
permit. -/
theorem wakeUpNext_cases (s : AsyncSemaphore) :
    (s.wakeUpNext = s ∧ ¬ s.Wanted) ∨
      ∃ before i after, s.waiters = before ++ (i, .pending) :: after ∧
        s.wakeUpNext = ⟨s.value - 1, before ++ (i, .granted) :: after⟩ := by
  rcases grantFirst_cases s.waiters with ⟨hnone, hpending⟩ | ⟨before, i, after, hwaiters, hsome⟩
  · exact Or.inl ⟨by simp [wakeUpNext, hnone], fun ⟨i, hi⟩ => hpending i hi⟩
  · exact Or.inr ⟨before, i, after, hwaiters, by simp [wakeUpNext, hsome]⟩

theorem alert_wakeUpNext (s : AsyncSemaphore) : s.wakeUpNext.Alert := by
  rcases s.wakeUpNext_cases with ⟨heq, hwanted⟩ | ⟨before, i, after, -, heq⟩
  · rw [heq]
    exact fun _ h => absurd h hwanted
  · rw [heq]
    exact fun _ _ => ⟨i, by simp⟩

theorem free_wakeUpNext {s : AsyncSemaphore} (h : 0 < s.value) : s.wakeUpNext.free = s.free := by
  rcases s.wakeUpNext_cases with ⟨heq, -⟩ | ⟨before, i, after, hwaiters, heq⟩
  · rw [heq]
  · simp only [heq, free, hwaiters, List.countP_append, List.countP_cons]
    simp [isGranted]
    omega

@[simp] theorem queue_wakeUpNext (s : AsyncSemaphore) : s.wakeUpNext.queue = s.queue := by
  rcases s.wakeUpNext_cases with ⟨heq, -⟩ | ⟨before, i, after, hwaiters, heq⟩
  · rw [heq]
  · simp [heq, queue, hwaiters]

section operations
variable {s t : AsyncSemaphore} {i : ℕ}

theorem free_release (s : AsyncSemaphore) : s.release.free = s.free + 1 := by
  rw [release, free_wakeUpNext (Nat.succ_pos _)]
  exact Nat.add_right_comm _ _ _

@[simp] theorem queue_release (s : AsyncSemaphore) : s.release.queue = s.queue :=
  queue_wakeUpNext _

theorem alert_release (s : AsyncSemaphore) : s.release.Alert := alert_wakeUpNext _

theorem free_take (h : ¬ s.Locked) : s.take.free + 1 = s.free := by
  have hvalue : s.value ≠ 0 := fun h0 => h (.inl h0)
  simp only [take, free]
  omega

theorem alert_take (h : ¬ s.Locked) : s.take.Alert :=
  fun _ ⟨i, hi⟩ => absurd (.inr ⟨(i, .pending), hi, by simp⟩) h

@[simp] theorem free_wait (s : AsyncSemaphore) (i : ℕ) : (s.wait i).free = s.free := by
  simp [wait, free, isGranted]

theorem queue_wait (s : AsyncSemaphore) (i : ℕ) : (s.wait i).queue = i ::ₘ s.queue := by
  simp only [wait, queue, List.map_append, List.map_cons, List.map_nil, Multiset.cons_coe]
  exact Multiset.coe_eq_coe.mpr (List.perm_append_singleton _ _)

theorem alert_wait (hs : s.Alert) (h : s.Locked) : (s.wait i).Alert := by
  intro hvalue _
  -- whoever finds a permit and still has to wait stands behind somebody
  rcases h with h0 | ⟨⟨j, ticket⟩, hmem, hticket⟩
  · exact absurd h0 hvalue.ne'
  · cases ticket with
    | pending =>
      obtain ⟨k, hk⟩ := hs hvalue ⟨j, hmem⟩
      exact ⟨k, List.mem_append_left _ hk⟩
    | granted => exact ⟨j, List.mem_append_left _ hmem⟩
    | cancelled => exact absurd rfl hticket

@[simp] theorem free_cancel (s : AsyncSemaphore) (i : ℕ) : (s.cancel i).free = s.free := by
  simp only [cancel, free, List.countP_map]
  congr 2
  funext w
  simp only [Function.comp_apply]
  split <;> simp_all [isGranted]

@[simp] theorem queue_cancel (s : AsyncSemaphore) (i : ℕ) : (s.cancel i).queue = s.queue := by
  simp only [cancel, queue, List.map_map]
  congr 2
  funext w
  simp only [Function.comp_apply]
  split <;> simp_all

theorem alert_cancel (hs : s.Alert) (i : ℕ) : (s.cancel i).Alert := by
  rintro hvalue ⟨j, hj⟩
  obtain ⟨w, hw, heq⟩ := List.mem_map.mp hj
  split at heq
  · simp at heq
  · subst heq
    obtain ⟨k, hk⟩ := hs hvalue ⟨j, hw⟩
    exact ⟨k, List.mem_map.mpr ⟨_, hk, by simp⟩⟩

/-- Leaving with a permit takes it away; whoever is cancelled takes none. -/
theorem Leaves.free {taken : Bool} (h : s.Leaves i taken t) : t.free + taken.toNat = s.free := by
  cases h with
  | @granted before after hwaiters =>
    have hrest : ∀ before after, s.waiters = before ++ (i, .granted) :: after →
        AsyncSemaphore.free ⟨s.value, before ++ after⟩ + 1 = s.free := by
      intro before after hwaiters
      simp only [AsyncSemaphore.free, hwaiters, List.countP_append, List.countP_cons]
      simp [isGranted]
      omega
    split
    · next hvalue =>
      have hwake : AsyncSemaphore.free (wakeUpNext ⟨s.value, before ++ after⟩) =
          AsyncSemaphore.free ⟨s.value, before ++ after⟩ := free_wakeUpNext hvalue
      exact (congrArg (· + 1) hwake).trans (hrest _ _ hwaiters)
    · exact hrest _ _ hwaiters
  | givenBack hwaiters =>
    rw [free_release]
    simp only [AsyncSemaphore.free, hwaiters, List.countP_append, List.countP_cons]
    simp [isGranted]
    omega
  | cancelled hwaiters => simp [AsyncSemaphore.free, hwaiters, isGranted]

theorem Leaves.queue {taken : Bool} (h : s.Leaves i taken t) : i ::ₘ t.queue = s.queue := by
  have hrest : ∀ ticket before after, s.waiters = before ++ (i, ticket) :: after →
      i ::ₘ AsyncSemaphore.queue ⟨s.value, before ++ after⟩ = s.queue := by
    intro ticket before after hwaiters
    simp only [AsyncSemaphore.queue, hwaiters, List.map_append, List.map_cons, Multiset.cons_coe]
    exact Multiset.coe_eq_coe.mpr List.perm_middle.symm
  cases h with
  | granted hwaiters => split <;> simpa using hrest _ _ _ hwaiters
  | givenBack hwaiters => simpa using hrest _ _ _ hwaiters
  | cancelled hwaiters => exact hrest _ _ _ hwaiters

theorem Leaves.alert {taken : Bool} (h : s.Leaves i taken t) (hs : s.Alert) : t.Alert := by
  cases h with
  | granted hwaiters =>
    split
    · exact alert_wakeUpNext _
    · next hvalue => exact fun h => absurd h hvalue
  | givenBack => exact alert_release _
  | cancelled hwaiters =>
    rintro hvalue ⟨j, hj⟩
    obtain ⟨k, hk⟩ := hs hvalue ⟨j, by rw [hwaiters]; grind⟩
    exact ⟨k, by rw [hwaiters] at hk; grind⟩

end operations

end AsyncSemaphore

end BaseWebService.Library
