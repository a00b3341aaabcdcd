import Mathlib.Algebra.Order.BigOperators.Group.Finset
import BaseWebService.Connector.Concurrency
import BaseWebService.Connector.Outcomes

/-!
# Permits of HTTP calls

A request takes its permit right before its HTTP call and gives it back on every way out, so at any
time the permits of a semaphore are those that are free and those of its requests whose calls are
under way. Which semaphore a task has seen, or holds, is the state of its discipline; the invariant
`Accounted` counts the permits over all tasks.

## Main results

* `body_obeys` : a request keeps to the discipline, whatever its calls meet.
* `accounted` : the permits in every run of the event loop.
* `calls_limited` : how many HTTP calls are under way.
* `permits_conserved` : no permit is lost, and nobody waits for one in vain.
-/

namespace BaseWebService.Connector.Concurrency

open Library

variable {V : Type}

/-! ## The discipline -/

/-- What a task knows of the semaphores: that there is none, one that it has made or read, or one
that it holds a permit of. -/
inductive Place where
  | outside
  | absent
  | fresh (sem : ℕ)
  | found (sem : ℕ)
  | holding (sem : ℕ)
  deriving DecidableEq

/-- HTTP calls. -/
def IsSend : Cmd V → Prop
  | .send _ => True
  | _ => False

/-- A permit is held around each HTTP call, and around nothing else. -/
def discipline (settings : ConcurrencySettings) :
    Discipline (Command V) Command.Reply Place where
  allows
    | .outside, .readSemaphore | .found _, .readSemaphore => True
    | .absent, .newSemaphore value => value = settings.httpMaxConcurrentRequests
    | .fresh sem, .writeSemaphore value => value = some sem
    | .found sem, .acquire sem' => sem' = sem
    | .holding sem, .release sem' => sem' = sem
    | .holding _, .await c => IsSend c
    | .outside, .await c => ¬ IsSend c
    | .outside, .writeSemaphore value => value = none
    | .outside, .cancel _ => True
    | _, _ => False
  next
    | .outside, .readSemaphore, none => .absent
    | _, .readSemaphore, none => .outside
    | _, .readSemaphore, some sem => .found sem
    | _, .newSemaphore _, .ok sem => .fresh sem
    | _, .newSemaphore _, .error _ => .outside
    | .fresh sem, .writeSemaphore _, _ => .found sem
    | _, .acquire sem, taken => if taken then .holding sem else .outside
    | _, .release _, _ => .outside
    | p, _, _ => p

/-- Every call ends without a permit. -/
def EndsOutside (call : Call V) (_ : Except Failure call.Value) (p : Place) : Prop := p = .outside

section obeys
variable (settings : ConcurrencySettings)

/-- How a program ends that is called and ends outside. -/
abbrev Outside {α : Type} (_ : Except Failure α) (p : Place) : Prop := p = .outside

theorem await_obeys {p : Place} {c : Cmd V} (hc : (discipline settings).allows p (.await c))
    (hnext : ∀ r, (discipline settings).next p (.await c) r = p) :
    Obeys (discipline settings) (fun _ q => q = p) p (await c) := by
  refine ⟨hc, fun r => ?_⟩
  rw [hnext]
  cases r with
  | none => exact rfl
  | some r => exact rfl

/-- Whichever way the body ends, the permit is given back. -/
theorem withSemaphore_obeys {α : Type} {sem : ℕ} {body : M V α}
    (hbody : Obeys (discipline settings) (fun _ q => q = .holding sem) (.holding sem) body) :
    Obeys (discipline settings) Outside (.found sem) (withSemaphore sem body) := by
  refine ⟨rfl, fun taken => ?_⟩
  cases taken with
  | false => exact rfl
  | true =>
    have hhandled : Obeys (discipline settings)
        (fun (r : Except Failure α) q => match r with
          | .ok _ => q = .holding sem
          | .error _ => q = .outside) (.holding sem)
        (body.handle fun e => do
          ask (.release sem)
          throw e) :=
      hbody.handle (fun _ _ h => h) fun e q h => by
        subst h
        exact ⟨rfl, fun _ => rfl⟩
    refine hhandled.bind (fun a q h => ?_) fun _ _ h => h
    subst h
    exact ⟨rfl, fun _ => rfl⟩

/-- The semaphore a task has asked for is the one it knows of. -/
def Asked : Except Failure (Except String (Option ℕ)) → Place → Prop
  | .ok (.ok (some sem)), p => p = .found sem
  | .ok _, p => p = .outside
  | .error _, _ => False

theorem getHttpCallSemaphore_obeys : Obeys (discipline (V := V) settings) Asked .outside
    (getHttpCallSemaphore settings) := by
  -- the name is read again at the end, whatever came before
  have hreread : ∀ sem, Obeys (discipline (V := V) settings) Asked (.found sem)
      (do return .ok (← ask .readSemaphore) : M V (Except String (Option ℕ))) := by
    refine fun sem => ⟨trivial, fun current => ?_⟩
    cases current with
    | none => exact rfl
    | some sem' => exact rfl
  refine ⟨trivial, fun current => ?_⟩
  cases current with
  | some sem => exact hreread sem
  | none =>
    refine ⟨rfl, fun made => ?_⟩
    cases made with
    | error text => exact rfl
    | ok sem => exact ⟨rfl, fun _ => hreread sem⟩

theorem httpCall_obeys (kwargs : RequestKwargs V) :
    Obeys (discipline settings) Outside .outside (httpCall settings kwargs) := by
  refine (getHttpCallSemaphore_obeys settings).bind (fun r q h => ?_) fun _ _ h => h.elim
  match r, h with
  | .error _, h => exact h
  | .ok none, h => exact h
  | .ok (some sem), h =>
    subst h
    exact withSemaphore_obeys settings (await_obeys settings trivial fun _ => rfl)

theorem body_obeys (call : Call V) :
    Obeys (discipline settings) (EndsOutside call) .outside (call.body settings) := by
  cases call with
  | request c r =>
    have hperform : ∀ cmd : Cmd V, Obeys (discipline settings) Outside .outside
        (perform settings cmd) := by
      intro cmd
      cases cmd with
      | send kwargs => exact httpCall_obeys settings kwargs
      | _ => exact await_obeys settings not_false fun _ => rfl
    refine (obeys_translate (E := fun _ q => q = .outside)
      (fun cmd => (hperform cmd).mono fun r q h => ?_) (fun _ => rfl) (c.request r)).mono
        fun r q h => ?_
    · cases r <;> exact h
    · cases r <;> exact h
  | resetHttpCallSemaphore => exact ⟨rfl, fun _ => rfl⟩
  | cancel task => exact ⟨trivial, fun _ => rfl⟩

end obeys

/-! ## The accounts -/

abbrev CallEvent (V : Type) := Library.Event (Command V) Command.Reply
abbrev CallStance (V : Type) := Stance (Command V) Place

/-- The semaphore that a task knows of. -/
def Place.sem : Place → Option ℕ
  | .fresh sem | .found sem | .holding sem => some sem
  | _ => none

/-- Between reading that there is no semaphore and naming the one it has made. -/
def Place.IsMaking : Place → Prop
  | .absent | .fresh _ => True
  | _ => False

/-- The permits of the semaphore that a task holds. -/
def permits (sem : ℕ) (x : CallStance V) : ℕ := if x.state = .holding sem then 1 else 0

/-- The task, if it waits in the queue of the semaphore. -/
def queuedAt (sem : ℕ) (x : CallStance V) : Multiset ℕ :=
  match x.waits with
  | some (.acquire sem') => if sem' = sem then {x.id} else 0
  | _ => 0

def IsReset : CallEvent V → Bool
  | ⟨.writeSemaphore none, _⟩ => true
  | _ => false

def resets (h : List (CallEvent V)) : ℕ := h.countP IsReset

@[simp] theorem resets_snoc (h : List (CallEvent V)) (e : CallEvent V) :
    resets (h ++ [e]) = resets h + (IsReset e).toNat := by
  cases he : IsReset e <;> simp [resets, he]

/-- What a task knows is so. -/
structure Valid (s : CallStore) (x : CallStance V) : Prop where
  known : ∀ sem, x.state.sem = some sem → sem < s.count
  making : x.state.IsMaking → x.waits = none ∧ s.current = none
  acquiring : ∀ sem, x.waits = some (.acquire sem) → x.state = .found sem
  sending : ∀ kwargs, x.waits = some (.await (.send kwargs)) → ∃ sem, x.state = .holding sem
  holding : ∀ sem, x.state = .holding sem → x.waits ≠ none →
    ∃ kwargs, x.waits = some (.await (.send kwargs))

/-- The permits of each semaphore are all there: free, handed over or held. -/
structure Accounted (settings : ConcurrencySettings) (h : List (CallEvent V))
    (m : Multiset (CallStance V)) (s : CallStore) : Prop where
  counted : ∀ sem < s.count, (((s.semaphores sem).free + (m.map (permits sem)).sum : ℕ) : ℤ) =
    settings.httpMaxConcurrentRequests
  queued : ∀ sem, (s.semaphores sem).queue = (m.map (queuedAt sem)).sum
  alert : ∀ sem, (s.semaphores sem).Alert
  blank : ∀ sem, s.count ≤ sem → s.semaphores sem = ⟨0, []⟩
  current : ∀ sem, s.current = some sem → sem < s.count
  made : s.count ≤ resets h + 1
  unmade : s.current = none → (∀ x ∈ m, ∀ sem, x.state ≠ .fresh sem) → s.count ≤ resets h
  valid : ∀ x ∈ m, Valid s x

section steps
variable {settings : ConcurrencySettings} {h : List (CallEvent V)} {m : Multiset (CallStance V)}
  {s s' : CallStore} {x x' : CallStance V}

theorem Valid.of_eq (hx : Valid s x) (hcount : s'.count = s.count)
    (hcurrent : s'.current = s.current) : Valid s' x where
  known sem hsem := hcount ▸ hx.known sem hsem
  making hmaking := hcurrent ▸ hx.making hmaking
  acquiring := hx.acquiring
  sending := hx.sending
  holding := hx.holding

/-- What there is to check of a task that runs. -/
theorem valid_running {i : ℕ} {p : Place} (hknown : ∀ sem, p.sem = some sem → sem < s.count)
    (hmaking : p.IsMaking → s.current = none) : Valid (V := V) s ⟨i, p, none⟩ where
  known := hknown
  making h := ⟨rfl, hmaking h⟩
  acquiring := by simp
  sending := by simp
  holding := by simp

/-- A task moves on, and what it takes or gives back is missing from the semaphore, or there. -/
theorem Accounted.transfer (hacc : Accounted settings h (x ::ₘ m) s) (h' : List (CallEvent V))
    (hresets : resets h' = resets h) (hcount : s'.count = s.count)
    (hcurrent : s'.current = s.current)
    (hfree : ∀ sem, (s'.semaphores sem).free + permits sem x' =
      (s.semaphores sem).free + permits sem x)
    (hqueue : ∀ sem, (s'.semaphores sem).queue + queuedAt sem x =
      (s.semaphores sem).queue + queuedAt sem x')
    (halert : ∀ sem, (s'.semaphores sem).Alert)
    (hblank : ∀ sem, s.count ≤ sem → s'.semaphores sem = s.semaphores sem)
    (hfresh : ∀ sem, x.state ≠ .fresh sem) (hx' : Valid s x') :
    Accounted settings h' (x' ::ₘ m) s' where
  counted sem hsem := by
    rw [← hacc.counted sem (hcount ▸ hsem), Multiset.map_cons, Multiset.map_cons,
      Multiset.sum_cons, Multiset.sum_cons]
    have hsem' := hfree sem
    omega
  queued sem := by
    have hsem := hacc.queued sem
    rw [Multiset.map_cons, Multiset.sum_cons] at hsem ⊢
    have hsem' := hqueue sem
    rw [hsem, add_comm (queuedAt sem x), add_right_comm] at hsem'
    rw [add_right_cancel hsem', add_comm]
  alert := halert
  blank sem hsem := (hblank sem (hcount ▸ hsem)).trans (hacc.blank sem (hcount ▸ hsem))
  current sem hsem := hcount ▸ hacc.current sem (hcurrent ▸ hsem)
  made := by
    rw [hcount, hresets]
    exact hacc.made
  unmade hnone hnew := by
    rw [hcount, hresets]
    refine hacc.unmade (hcurrent ▸ hnone) fun y hy => ?_
    rcases Multiset.mem_cons.mp hy with rfl | hy
    · exact hfresh
    · exact hnew y (Multiset.mem_cons_of_mem hy)
  valid y hy := by
    rcases Multiset.mem_cons.mp hy with rfl | hy
    · exact hx'.of_eq hcount hcurrent
    · exact (hacc.valid y (Multiset.mem_cons_of_mem hy)).of_eq hcount hcurrent

/-- A step that leaves the semaphores alone, of a task that stands in no queue. -/
theorem Accounted.quiet (hacc : Accounted settings h (x ::ₘ m) s) (h' : List (CallEvent V))
    (hresets : resets h' = resets h) (hpermits : ∀ sem, permits sem x' = permits sem x)
    (hqueue : ∀ sem, queuedAt sem x' = queuedAt sem x) (hfresh : ∀ sem, x.state ≠ .fresh sem)
    (hx' : Valid s x') : Accounted settings h' (x' ::ₘ m) s :=
  hacc.transfer h' hresets rfl rfl (fun sem => by rw [hpermits]) (fun sem => by rw [hqueue])
    hacc.alert (fun _ _ => rfl) hfresh hx'

/-- A step that changes one semaphore only. -/
theorem Accounted.put (hacc : Accounted settings h (x ::ₘ m) s) (h' : List (CallEvent V))
    (hresets : resets h' = resets h) {sem : ℕ} {v : AsyncSemaphore} (hsem : sem < s.count)
    (hfree : v.free + permits sem x' = (s.semaphores sem).free + permits sem x)
    (hqueue : v.queue + queuedAt sem x = (s.semaphores sem).queue + queuedAt sem x')
    (hpermits : ∀ sem' ≠ sem, permits sem' x' = permits sem' x)
    (hqueued : ∀ sem' ≠ sem, queuedAt sem' x' = queuedAt sem' x) (halert : v.Alert)
    (hfresh : ∀ sem, x.state ≠ .fresh sem) (hx' : Valid s x') :
    Accounted settings h' (x' ::ₘ m) (s.put sem v) := by
  refine hacc.transfer h' hresets rfl rfl (fun sem' => ?_) (fun sem' => ?_) (fun sem' => ?_)
    (fun sem' hsem' => ?_) hfresh hx'
  all_goals simp only [CallStore.put]
  all_goals by_cases heq : sem' = sem
  · subst heq
    simpa using hfree
  · simp [Function.update_of_ne heq, hpermits sem' heq]
  · subst heq
    simpa using hqueue
  · simp [Function.update_of_ne heq, hqueued sem' heq]
  · subst heq
    simpa using halert
  · simpa [Function.update_of_ne heq] using hacc.alert sem'
  · omega
  · exact Function.update_of_ne heq _ _

theorem Accounted.start (hacc : Accounted settings h m s) (i : ℕ) :
    Accounted settings h (⟨i, .outside, none⟩ ::ₘ m) s where
  counted sem hsem := by simpa [permits] using hacc.counted sem hsem
  queued sem := by simpa [queuedAt] using hacc.queued sem
  alert := hacc.alert
  blank := hacc.blank
  current := hacc.current
  made := hacc.made
  unmade hnone hnew := hacc.unmade hnone fun x hx => hnew x (Multiset.mem_cons_of_mem hx)
  valid x hx := by
    rcases Multiset.mem_cons.mp hx with rfl | hx
    · constructor <;> simp [Place.sem, Place.IsMaking]
    · exact hacc.valid x hx

theorem Accounted.finish {i : ℕ} (hacc : Accounted settings h (⟨i, .outside, none⟩ ::ₘ m) s) :
    Accounted settings h m s where
  counted sem hsem := by simpa [permits] using hacc.counted sem hsem
  queued sem := by simpa [queuedAt] using hacc.queued sem
  alert := hacc.alert
  blank := hacc.blank
  current := hacc.current
  made := hacc.made
  unmade hnone hnew := hacc.unmade hnone fun x hx => by
    rcases Multiset.mem_cons.mp hx with rfl | hx
    · simp
    · exact hnew x hx
  valid x hx := hacc.valid x (Multiset.mem_cons_of_mem hx)

/-- A new semaphore has all its permits. -/
theorem Accounted.newSemaphore {i n : ℕ} (hacc : Accounted settings h (⟨i, .absent, none⟩ ::ₘ m) s)
    (hidle : Idle m) (hn : (n : ℤ) = settings.httpMaxConcurrentRequests) (e : CallEvent V)
    (he : IsReset e = false) :
    Accounted settings (h ++ [e]) (⟨i, .fresh s.count, none⟩ ::ₘ m)
      { s.put s.count ⟨n, []⟩ with count := s.count + 1 } := by
  have hnone : s.current = none := ((hacc.valid _ (Multiset.mem_cons_self _ _)).making trivial).2
  have hothers : ∀ x ∈ m, ¬ x.state.IsMaking := fun x hx hmaking =>
    hidle x hx ((hacc.valid x (Multiset.mem_cons_of_mem hx)).making hmaking).1
  have hfew : s.count ≤ resets h := by
    refine hacc.unmade hnone fun x hx sem hfresh => ?_
    rcases Multiset.mem_cons.mp hx with rfl | hx
    · cases hfresh
    · exact hothers x hx (by rw [hfresh]; trivial)
  -- nobody holds a permit of a semaphore that has not been made
  have hunused : (m.map (permits s.count)).sum = 0 := by
    refine Multiset.sum_eq_zero fun k hk => ?_
    obtain ⟨x, hx, rfl⟩ := Multiset.mem_map.mp hk
    refine if_neg fun hholding => ?_
    have hlt := (hacc.valid x (Multiset.mem_cons_of_mem hx)).known s.count (by rw [hholding]; rfl)
    omega
  constructor
  case counted =>
    intro sem hsem
    simp only [CallStore.put, Multiset.map_cons, Multiset.sum_cons]
    by_cases heq : sem = s.count
    · subst heq
      simpa [permits, hunused, AsyncSemaphore.free] using hn
    · have hold := hacc.counted sem (by simp only [] at hsem; omega)
      simpa [permits, Function.update_of_ne heq] using hold
  case queued =>
    intro sem
    have hold := hacc.queued sem
    by_cases heq : sem = s.count
    · subst heq
      rw [hacc.blank _ le_rfl] at hold
      simpa [CallStore.put, AsyncSemaphore.queue, queuedAt] using hold
    · simpa [CallStore.put, Function.update_of_ne heq, queuedAt] using hold
  case alert =>
    intro sem
    by_cases heq : sem = s.count
    · subst heq
      simp [CallStore.put, AsyncSemaphore.Alert, AsyncSemaphore.Wanted]
    · simpa [CallStore.put, Function.update_of_ne heq] using hacc.alert sem
  case blank =>
    intro sem hsem
    simp only [CallStore.put] at hsem ⊢
    rw [Function.update_of_ne (by omega)]
    exact hacc.blank sem (by omega)
  case current => exact fun sem hsem => (hacc.current sem hsem).trans (Nat.lt_succ_self _)
  case made =>
    simp only [resets_snoc, he]
    simpa using hfew
  case unmade => exact fun _ hnew => absurd rfl (hnew _ (Multiset.mem_cons_self _ _) s.count)
  case valid =>
    intro x hx
    rcases Multiset.mem_cons.mp hx with rfl | hx
    · exact valid_running (fun sem hsem => by cases hsem; exact Nat.lt_succ_self _) fun _ => hnone
    · have hvalid := hacc.valid x (Multiset.mem_cons_of_mem hx)
      exact ⟨fun sem hsem => (hvalid.known sem hsem).trans (Nat.lt_succ_self _), hvalid.making,
        hvalid.acquiring, hvalid.sending, hvalid.holding⟩

/-- Naming a semaphore, or forgetting the name. -/
theorem Accounted.writeSemaphore {i : ℕ} {p p' : Place} {value : Option ℕ}
    (hacc : Accounted settings h (⟨i, p, none⟩ ::ₘ m) s) (hidle : Idle m) (e : CallEvent V)
    (hheld : ∀ sem, p ≠ .holding sem ∧ p' ≠ .holding sem) (hmaking : ¬ p'.IsMaking)
    (hknown : ∀ sem, p'.sem = some sem → sem < s.count)
    (hvalue : ∀ sem, value = some sem → sem < s.count)
    (hreset : value = none → IsReset e = true) :
    Accounted settings (h ++ [e]) (⟨i, p', none⟩ ::ₘ m) { s with current := value } := by
  have hothers : ∀ x ∈ m, ¬ x.state.IsMaking := fun x hx hmaking =>
    hidle x hx ((hacc.valid x (Multiset.mem_cons_of_mem hx)).making hmaking).1
  constructor
  case counted =>
    intro sem hsem
    have hold := hacc.counted sem hsem
    simpa [permits, (hheld sem).1, (hheld sem).2] using hold
  case queued => exact fun sem => by simpa [queuedAt] using hacc.queued sem
  case alert => exact hacc.alert
  case blank => exact hacc.blank
  case current => exact hvalue
  case made =>
    rw [resets_snoc]
    exact hacc.made.trans (by omega)
  case unmade =>
    intro hnone _
    simp only [resets_snoc, hreset hnone]
    exact hacc.made
  case valid =>
    intro x hx
    rcases Multiset.mem_cons.mp hx with rfl | hx
    · exact valid_running hknown fun h => absurd h hmaking
    · have hvalid := hacc.valid x (Multiset.mem_cons_of_mem hx)
      exact ⟨hvalid.known, fun h => absurd h (hothers x hx), hvalid.acquiring, hvalid.sending,
        hvalid.holding⟩

@[simp] theorem next_await (p : Place) (c : Cmd V) (r : Option c.Reply) :
    (discipline settings).next p (.await c) r = p := by
  cases p <;> rfl

@[simp] theorem next_cancel (p : Place) (task : ℕ) (r : Unit) :
    (discipline (V := V) settings).next p (.cancel task) r = p := by
  cases p <;> rfl

/-- Only a task that runs is between reading and naming. -/
theorem not_isMaking_of_await {p : Place} {c : Cmd V}
    (hallows : (discipline settings).allows p (.await c)) : ¬ p.IsMaking := by
  cases p <;> first | exact hallows.elim | exact not_false

theorem ne_fresh_of_await {p : Place} {c : Cmd V}
    (hallows : (discipline settings).allows p (.await c)) (sem : ℕ) : p ≠ .fresh sem := by
  rintro rfl
  exact not_isMaking_of_await hallows trivial

theorem Accounted.answer {i : ℕ} {p : Place} {c : Command V} {r : c.Reply}
    (hacc : Accounted settings h (⟨i, p, none⟩ ::ₘ m) s) (hidle : Idle m)
    (hallows : (discipline settings).allows p c) (hanswer : s.Answer c r s') :
    Accounted settings (h ++ [⟨c, r⟩]) (⟨i, (discipline settings).next p c r, none⟩ ::ₘ m) s' := by
  have hself : Valid s ⟨i, p, none⟩ := hacc.valid _ (Multiset.mem_cons_self _ _)
  cases hanswer with
  | readSemaphore =>
    refine hacc.quiet _ (by simp [IsReset]) (fun sem => ?_) (fun _ => rfl) (fun sem hfresh => ?_)
      (valid_running ?_ ?_)
    all_goals cases p <;> first | exact hallows.elim | skip
    all_goals cases hcurrent : s.current
    all_goals simp_all [discipline, permits, Place.sem, Place.IsMaking]
    all_goals exact hacc.current _ hcurrent
  | newSemaphore =>
    cases p <;> try exact hallows.elim
    exact hacc.newSemaphore hidle hallows _ rfl
  | newSemaphoreError hneg =>
    cases p <;> try exact hallows.elim
    exact hacc.quiet _ (by simp [IsReset]) (by simp [permits, discipline]) (fun _ => rfl) (by simp)
      (valid_running (by simp [discipline, Place.sem]) (by simp [discipline, Place.IsMaking]))
  | @writeSemaphore value =>
    cases p <;> try exact hallows.elim
    case outside =>
      obtain rfl : value = none := hallows
      exact hacc.writeSemaphore hidle _ (by simp [discipline])
        (by simp [discipline, Place.IsMaking]) (by simp [discipline, Place.sem]) (by simp)
        (fun _ => rfl)
    case fresh sem =>
      obtain rfl : value = some sem := hallows
      have hsem : sem < s.count := hself.known sem rfl
      exact hacc.writeSemaphore hidle _ (by simp [discipline])
        (by simp [discipline, Place.IsMaking]) (by simpa [discipline, Place.sem] using hsem)
        (by simpa using hsem) (by simp)
  | @acquire sem hlocked =>
    cases p <;> try exact hallows.elim
    obtain rfl : sem = _ := hallows
    have hsem : sem < s.count := hself.known sem rfl
    refine hacc.put _ (by simp [IsReset]) hsem ?_ rfl ?_ (fun _ _ => rfl)
      (AsyncSemaphore.alert_take hlocked) (by simp) (valid_running ?_ ?_)
    · simpa [discipline, permits] using AsyncSemaphore.free_take hlocked
    · intro sem' hne
      simp [discipline, permits, Ne.symm hne]
    · simpa [discipline, Place.sem] using hsem
    · simp [discipline, Place.IsMaking]
  | @release sem =>
    cases p <;> try exact hallows.elim
    obtain rfl : sem = _ := hallows
    have hsem : sem < s.count := hself.known sem rfl
    refine hacc.put _ (by simp [IsReset]) hsem ?_ (by simp [queuedAt]) ?_ (fun _ _ => rfl)
      (AsyncSemaphore.alert_release _) (by simp) (valid_running ?_ ?_)
    · simpa [discipline, permits] using AsyncSemaphore.free_release _
    · intro sem' hne
      simp [discipline, permits, Ne.symm hne]
    · simp [discipline, Place.sem]
    · simp [discipline, Place.IsMaking]
  | await =>
    rw [next_await]
    exact hacc.quiet _ (by simp [IsReset]) (fun _ => rfl) (fun _ => rfl)
      (ne_fresh_of_await hallows) hself
  | @cancel task =>
    rw [next_cancel]
    refine hacc.transfer _ (by simp [IsReset]) rfl rfl (by simp) (by simp)
      (fun sem => AsyncSemaphore.alert_cancel (hacc.alert sem) task) (fun sem hsem => ?_)
      (fun sem hfresh => ?_) hself
    · simp [hacc.blank sem hsem, AsyncSemaphore.cancel]
    · rw [show p = _ from hfresh] at hallows
      exact hallows.elim

theorem Accounted.suspend {i : ℕ} {p : Place} {c : Command V}
    (hacc : Accounted settings h (⟨i, p, none⟩ ::ₘ m) s)
    (hallows : (discipline settings).allows p c) (hsuspend : s.Suspend i c s') :
    Accounted settings h (⟨i, p, some c⟩ ::ₘ m) s' := by
  have hself : Valid s ⟨i, p, none⟩ := hacc.valid _ (Multiset.mem_cons_self _ _)
  cases hsuspend with
  | @acquire sem hlocked =>
    cases p <;> try exact hallows.elim
    obtain rfl : sem = _ := hallows
    have hsem : sem < s.count := hself.known sem rfl
    refine hacc.put _ rfl hsem ?_ ?_ (fun _ _ => rfl) ?_
      (AsyncSemaphore.alert_wait (hacc.alert sem) hlocked) (by simp)
      ⟨hself.known, fun hmaking => hmaking.elim, ?_, by simp, by simp⟩
    · simp [permits]
    · simp [queuedAt, AsyncSemaphore.queue_wait, add_comm]
    · intro sem' hne
      simp [queuedAt, Ne.symm hne]
    · rintro sem' heq
      cases heq
      rfl
  | @await c =>
    have hmaking := not_isMaking_of_await hallows
    refine hacc.quiet _ rfl (fun _ => rfl) (fun _ => rfl)
      (ne_fresh_of_await hallows)
      ⟨hself.known, fun h => absurd h hmaking, by simp, ?_, ?_⟩
    · rintro kwargs heq
      cases heq
      cases p <;> first | exact hallows.elim | skip
      · exact absurd trivial hallows
      · exact ⟨_, rfl⟩
    · rintro sem rfl -
      cases c <;> first | exact hallows.elim | exact ⟨_, rfl⟩

theorem Accounted.resume {i : ℕ} {p : Place} {c : Command V} {r : c.Reply}
    (hacc : Accounted settings h (⟨i, p, some c⟩ ::ₘ m) s)
    (hallows : (discipline settings).allows p c) (hresume : s.Resume i c r s') :
    Accounted settings (h ++ [⟨c, r⟩]) (⟨i, (discipline settings).next p c r, none⟩ ::ₘ m) s' := by
  have hself : Valid s ⟨i, p, some c⟩ := hacc.valid _ (Multiset.mem_cons_self _ _)
  cases hresume with
  | @acquire sem taken t hleaves =>
    cases p <;> try exact hallows.elim
    obtain rfl : sem = _ := hallows
    have hsem : sem < s.count := hself.known sem rfl
    refine hacc.put _ (by simp [IsReset]) hsem ?_ ?_ ?_ ?_ (hleaves.alert (hacc.alert sem))
      (by simp) (valid_running ?_ ?_)
    · rw [← hleaves.free]
      cases taken <;> simp [discipline, permits]
    · rw [← hleaves.queue]
      simp [queuedAt, add_comm]
    · intro sem' hne
      cases taken <;> simp [discipline, permits, Ne.symm hne]
    · intro sem' hne
      simp [queuedAt, Ne.symm hne]
    · cases taken <;> simp [discipline, Place.sem, hsem]
    · cases taken <;> simp [discipline, Place.IsMaking]
  | await =>
    rw [next_await]
    have hmaking := not_isMaking_of_await hallows
    exact hacc.quiet _ (by simp [IsReset]) (fun _ => rfl) (fun _ => rfl)
      (ne_fresh_of_await hallows)
      (valid_running hself.known fun h => absurd h hmaking)

end steps

theorem maintains (settings : ConcurrencySettings) :
    Maintains (callKernel V) (discipline settings) (fun _ => .outside) (EndsOutside (V := V))
      (Accounted settings) where
  start i _ _ hacc := hacc.start i
  answer hidle hacc hallows hanswer := hacc.answer hidle hallows hanswer
  suspend _ hacc hallows hsuspend := hacc.suspend hallows hsuspend
  resume _ hacc hallows hresume := hacc.resume hallows hresume
  finish _ hacc hends := by
    obtain rfl := hends
    exact hacc.finish

/-! ## Every run -/

theorem accounted_fresh (settings : ConcurrencySettings) :
    Accounted (V := V) settings [] 0 {} where
  counted sem hsem := absurd hsem (Nat.not_lt_zero _)
  queued sem := rfl
  alert sem hvalue := absurd hvalue (Nat.lt_irrefl 0)
  blank sem _ := rfl
  current sem hsem := by cases hsem
  made := Nat.zero_le _
  unmade _ _ := le_rfl
  valid x hx := absurd hx (Multiset.notMem_zero x)

section runs
variable {settings : ConcurrencySettings} {tr : List (Transition (CallLoop V) (CallLabel V))}
  {l : CallLoop V}

theorem accounted (hrun : Run (CallStep settings) (Loop.fresh {}) tr l) :
    Loop.Keeps (discipline settings) EndsOutside (Accounted settings) l :=
  Loop.maintained (body_obeys settings) (maintains settings) (accounted_fresh settings) hrun

/-- An HTTP call that has been sent and not been answered. -/
def isSending : Option (Command V) → Bool
  | some (.await (.send _)) => true
  | _ => false

def underWay (l : CallLoop V) : ℕ := l.waiting.countP fun task => isSending task.rest.command

/-- Every call that is under way has a permit of one of the semaphores, and each permit that is
held is that of such a call. -/
theorem sum_permits_eq {m : Multiset (CallStance V)} {s : CallStore} (hidle : Idle m)
    (hvalid : ∀ x ∈ m, Valid s x) :
    ∑ sem ∈ Finset.range s.count, (m.map (permits sem)).sum =
      m.countP fun x => isSending x.waits := by
  induction m using Multiset.induction_on with
  | empty => simp
  | cons x m ih =>
    have hx := hvalid x (Multiset.mem_cons_self _ _)
    have ih := ih (fun y hy => hidle y (Multiset.mem_cons_of_mem hy))
      fun y hy => hvalid y (Multiset.mem_cons_of_mem hy)
    have hone : ∑ sem ∈ Finset.range s.count, permits sem x =
        if isSending x.waits = true then 1 else 0 := by
      by_cases hsending : isSending x.waits = true
      · have hholding : ∃ sem, x.state = .holding sem := by
          unfold isSending at hsending
          split at hsending
          · next heq => exact hx.sending _ heq
          · cases hsending
        obtain ⟨sem, hholding⟩ := hholding
        have hlt := hx.known sem (by rw [hholding]; rfl)
        simp [permits, hholding, hsending, hlt]
      · have hnot : ∀ sem, x.state ≠ .holding sem := by
          intro sem hholding
          obtain ⟨kwargs, hwaits⟩ := hx.holding sem hholding (hidle x (Multiset.mem_cons_self _ _))
          rw [hwaits] at hsending
          exact hsending rfl
        simp [permits, hnot, hsending]
    simp only [Multiset.map_cons, Multiset.sum_cons, Finset.sum_add_distrib, hone, ih,
      Multiset.countP_cons]
    omega

theorem underWay_eq {l : CallLoop V} {running waiting : List (CallStance V)}
    (hmatch : Loop.Matched (discipline settings) EndsOutside l running waiting)
    (hacc : Accounted settings l.history ((running : Multiset (CallStance V)) + waiting) l.store) :
    underWay l = ∑ sem ∈ Finset.range l.store.count,
      ((waiting : Multiset (CallStance V)).map (permits sem)).sum := by
  rw [sum_permits_eq hmatch.idle fun x hx => hacc.valid x (Multiset.mem_add.mpr (.inr hx))]
  simpa [underWay] using hmatch.countP_eq isSending

/-- In every run, with any number of requests that end in any way, and with cancellations at any
time: no more HTTP calls are under way than the setting allows for each time the semaphore has been
forgotten, and once more. -/
theorem calls_limited (hrun : Run (CallStep settings) (Loop.fresh {}) tr l) :
    underWay l ≤ settings.httpMaxConcurrentRequests.toNat * (resets l.history + 1) := by
  obtain ⟨running, waiting, hmatch, hacc⟩ := accounted hrun
  have heach : ∀ sem ∈ Finset.range l.store.count,
      ((waiting : Multiset (CallStance V)).map (permits sem)).sum ≤
        settings.httpMaxConcurrentRequests.toNat := by
    intro sem hsem
    have hcounted := hacc.counted sem (Finset.mem_range.mp hsem)
    rw [Multiset.map_add, Multiset.sum_add] at hcounted
    omega
  calc underWay l
      = ∑ sem ∈ Finset.range l.store.count,
          ((waiting : Multiset (CallStance V)).map (permits sem)).sum := underWay_eq hmatch hacc
    _ ≤ (Finset.range l.store.count).card • settings.httpMaxConcurrentRequests.toNat :=
        Finset.sum_le_card_nsmul _ _ _ heach
    _ = settings.httpMaxConcurrentRequests.toNat * l.store.count := by simp [Nat.mul_comm]
    _ ≤ settings.httpMaxConcurrentRequests.toNat * (resets l.history + 1) :=
        Nat.mul_le_mul_left _ hacc.made

/-- Whatever the program meets, the first permit that it gives back is one of the semaphore. -/
def GivesBack {α : Type} (sem : ℕ) : M V α → Prop
  | .ret _ | .raise _ => False
  | .call c k => c = .release sem ∨ (∀ sem', c ≠ .release sem') ∧ ∀ r, GivesBack sem (k r)

theorem givesBack_of_obeys {call : Call V} {sem : ℕ} {p : M V call.Value}
    (hp : Obeys (discipline settings) (EndsOutside call) (.holding sem) p) : GivesBack sem p := by
  induction p with
  | ret | raise => cases hp
  | call c k ih =>
    obtain ⟨hallows, hk⟩ := hp
    cases c with
    | release sem' => exact .inl (congrArg Command.release hallows)
    | await c => exact .inr ⟨by simp, fun r => ih r (hk r)⟩
    | _ => exact hallows.elim

/-- No program gives back to two semaphores first. -/
theorem GivesBack.unique {α : Type} {sem sem' : ℕ} {p : M V α} (h : GivesBack sem p)
    (h' : GivesBack sem' p) : sem = sem' := by
  induction p with
  | ret | raise => exact h.elim
  | call c k ih =>
    rcases h with rfl | ⟨hnot, hk⟩
    · rcases h' with h' | ⟨hnot', -⟩
      · exact Command.release.inj h'
      · exact absurd rfl (hnot' sem)
    · rcases h' with rfl | ⟨-, hk'⟩
      · exact absurd rfl (hnot sem')
      · cases c with
        | readSemaphore | await => exact ih none (hk _) (hk' _)
        | newSemaphore => exact ih (.ok 0) (hk _) (hk' _)
        | acquire => exact ih false (hk _) (hk' _)
        | writeSemaphore | release | cancel => exact ih () (hk _) (hk' _)

/-- The call is under way with a permit of the semaphore. -/
def Holds (sem : ℕ) (task : LoopTask (Command V) Command.Reply Failure (Call.Value (V := V))) :
    Prop :=
  isSending task.rest.command = true ∧ GivesBack sem task.rest

open Classical in
/-- How many calls are under way with a permit of the semaphore. -/
noncomputable def held (sem : ℕ) (l : CallLoop V) : ℕ := l.waiting.countP fun task => Holds sem task

/-- A call that is under way has a permit of the semaphore its stance names. -/
theorem holds_iff {s : CallStore} {x : CallStance V}
    {task : LoopTask (Command V) Command.Reply Failure (Call.Value (V := V))}
    (hstands : Loop.Stands (discipline settings) EndsOutside task x)
    (hwaits : x.waits = task.rest.command) (hne : x.waits ≠ none) (hx : Valid s x) (sem : ℕ) :
    Holds sem task ↔ x.state = .holding sem := by
  have hobeys := hstands.obeys
  constructor
  · rintro ⟨hsending, hgives⟩
    rw [← hwaits] at hsending
    unfold isSending at hsending
    split at hsending
    · next heq =>
      obtain ⟨sem', hstate⟩ := hx.sending _ heq
      rw [hstate] at hobeys
      rw [hstate, (givesBack_of_obeys hobeys).unique hgives]
    · cases hsending
  · intro hstate
    obtain ⟨kwargs, hkwargs⟩ := hx.holding sem hstate hne
    rw [hstate] at hobeys
    refine ⟨?_, givesBack_of_obeys hobeys⟩
    rw [← hwaits, hkwargs]
    rfl

theorem held_eq {l : CallLoop V} {s : CallStore} {running waiting : List (CallStance V)}
    (hmatch : Loop.Matched (discipline settings) EndsOutside l running waiting)
    (hvalid : ∀ x ∈ waiting, Valid s x) (sem : ℕ) :
    held sem l = ((waiting : Multiset (CallStance V)).map (permits sem)).sum := by
  obtain ⟨-, hwaiting⟩ := hmatch
  unfold held
  generalize l.waiting = tasks at hwaiting
  induction hwaiting with
  | nil => rfl
  | @cons task x _ _ hx _ ih =>
    have hholds := holds_iff hx.1 hx.2.1 hx.2.2 (hvalid x (by simp)) sem
    have ih := ih fun y hy => hvalid y (List.mem_cons_of_mem _ hy)
    rw [← Multiset.cons_coe, Multiset.map_cons, Multiset.sum_cons, ← ih, List.countP_cons,
      Nat.add_comm, permits]
    simp only [decide_eq_true_eq, hholds]

/-- What becomes of the permits, whenever no task runs. -/
structure PermitsConserved (settings : ConcurrencySettings) (l : CallLoop V) : Prop where
  /-- the permits of a semaphore are free or handed over, or those of calls under way -/
  conserved : ∀ sem < l.store.count, (l.store.semaphores sem).free + held sem l =
    settings.httpMaxConcurrentRequests.toNat
  /-- every call that is under way has a permit, of one semaphore -/
  permitted : ∀ task ∈ l.waiting, isSending task.rest.command = true →
    ∃ sem < l.store.count, ∀ sem', Holds sem' task ↔ sem' = sem
  /-- a task waits for a semaphore because none of its permits is free, or somebody is about to go
  on with one, or the task has been cancelled and is about to find out -/
  justified : ∀ task ∈ l.waiting, ∀ sem, task.rest.command = some (.acquire sem) →
    (l.store.semaphores sem).free = 0 ∨
    (∃ other ∈ l.waiting, ∃ l', CallStep settings l (.resume other.id (.acquire sem) true) l') ∨
    ∃ l', CallStep settings l (.resume task.id (.acquire sem) false) l'

/-- A task that is in the queue waits in the loop. -/
theorem exists_waiting {l : CallLoop V} {waiting : List (CallStance V)} {sem i : ℕ}
    (hmatch : Loop.Matched (discipline settings) EndsOutside l [] waiting)
    (hacc : Accounted settings l.history (waiting : Multiset (CallStance V)) l.store)
    (hi : i ∈ (l.store.semaphores sem).queue) :
    ∃ task ∈ l.waiting, task.id = i ∧ task.rest.command = some (.acquire sem) := by
  rw [hacc.queued sem] at hi
  have hbind : i ∈ (waiting : Multiset (CallStance V)).bind (queuedAt sem) := hi
  obtain ⟨x, hx, hmem⟩ := Multiset.mem_bind.mp hbind
  obtain ⟨task, htask, ⟨hid, -⟩, hwaits, -⟩ := hmatch.exists_task (Multiset.mem_coe.mp hx)
  refine ⟨task, htask, ?_⟩
  unfold queuedAt at hmem
  split at hmem
  · next sem' heq =>
    split at hmem
    · next hsem =>
      exact ⟨(Multiset.mem_singleton.mp hmem).symm ▸ hid.symm, by rw [← hwaits, heq, hsem]⟩
    · exact absurd hmem (Multiset.notMem_zero i)
  · exact absurd hmem (Multiset.notMem_zero i)

theorem mem_queue {l : CallLoop V} {waiting : List (CallStance V)} {sem : ℕ}
    (hmatch : Loop.Matched (discipline settings) EndsOutside l [] waiting)
    (hacc : Accounted settings l.history (waiting : Multiset (CallStance V)) l.store)
    {task : LoopTask (Command V) Command.Reply Failure (Call.Value (V := V))}
    (htask : task ∈ l.waiting) (hcommand : task.rest.command = some (.acquire sem)) :
    task.id ∈ (l.store.semaphores sem).queue := by
  obtain ⟨x, hx, ⟨hid, -⟩, hwaits, -⟩ := hmatch.exists_stance htask
  rw [hcommand] at hwaits
  rw [hacc.queued sem]
  refine Multiset.mem_bind.mpr ⟨x, Multiset.mem_coe.mpr hx, ?_⟩
  simp [queuedAt, hwaits, hid]

/-- A task whose turn it is leaves the queue. -/
theorem exists_resume {l : CallLoop V} {sem : ℕ} {taken : Bool} {t : AsyncSemaphore}
    {task : LoopTask (Command V) Command.Reply Failure (Call.Value (V := V))}
    (hidle : l.running = none) (htask : task ∈ l.waiting)
    (hcommand : task.rest.command = some (.acquire sem))
    (hleaves : (l.store.semaphores sem).Leaves task.id taken t) :
    ∃ l', CallStep settings l (.resume task.id (.acquire sem) taken) l' := by
  obtain ⟨id, called, rest⟩ := task
  obtain ⟨before, after, hsplit⟩ := List.append_of_mem htask
  cases rest with
  | ret | raise => cases hcommand
  | call c k =>
    obtain rfl : c = .acquire sem := Option.some.inj hcommand
    exact ⟨_, .resume hidle hsplit (.acquire hleaves)⟩

/-- A task that waits for a semaphore waits for a permit that is not there, or one that another task
is about to pass on, or it has been cancelled. -/
theorem justified_wait {l : CallLoop V} {waiting : List (CallStance V)} {sem : ℕ}
    {task : LoopTask (Command V) Command.Reply Failure (Call.Value (V := V))}
    (hmatch : Loop.Matched (discipline settings) EndsOutside l [] waiting)
    (hacc : Accounted settings l.history (waiting : Multiset (CallStance V)) l.store)
    (hidle : l.running = none) (htask : task ∈ l.waiting)
    (hcommand : task.rest.command = some (.acquire sem)) :
    (l.store.semaphores sem).free = 0 ∨
    (∃ other ∈ l.waiting, ∃ l', CallStep settings l (.resume other.id (.acquire sem) true) l') ∨
    ∃ l', CallStep settings l (.resume task.id (.acquire sem) false) l' := by
  obtain ⟨⟨i, ticket⟩, hw, rfl⟩ :=
    List.mem_map.mp (Multiset.mem_coe.mp (mem_queue hmatch hacc htask hcommand))
  by_cases hgranted : ∃ j, (j, .granted) ∈ (l.store.semaphores sem).waiters
  · -- whoever has been woken can go on
    obtain ⟨j, hj⟩ := hgranted
    obtain ⟨other, hother, rfl, hcommand'⟩ := exists_waiting hmatch hacc
      (Multiset.mem_coe.mpr (List.mem_map.mpr ⟨_, hj, rfl⟩))
    obtain ⟨before, after, hsplit⟩ := List.append_of_mem hj
    exact .inr (.inl ⟨other, hother, exists_resume hidle hother hcommand' (.granted hsplit)⟩)
  · cases ticket with
    | granted => exact absurd ⟨_, hw⟩ hgranted
    | cancelled =>
      obtain ⟨before, after, hsplit⟩ := List.append_of_mem hw
      exact .inr (.inr (exists_resume hidle htask hcommand (.cancelled hsplit)))
    | pending =>
      -- nobody has been woken, so no permit is left
      left
      have hvalue : (l.store.semaphores sem).value = 0 := by
        by_contra hne
        exact hgranted (hacc.alert sem (Nat.pos_of_ne_zero hne) ⟨_, hw⟩)
      have hnone : (l.store.semaphores sem).waiters.countP AsyncSemaphore.isGranted = 0 := by
        refine List.countP_eq_zero.mpr fun w hw' hw'' => hgranted ⟨w.1, ?_⟩
        simp only [AsyncSemaphore.isGranted, decide_eq_true_eq] at hw''
        rwa [← hw'']
      rw [AsyncSemaphore.free, hnone, hvalue]

theorem permits_conserved (hrun : Run (CallStep settings) (Loop.fresh {}) tr l)
    (hidle : l.running = none) : PermitsConserved settings l := by
  obtain ⟨running, waiting, hmatch, hacc⟩ := accounted hrun
  obtain rfl := hmatch.running_nil hidle
  have hacc' : Accounted settings l.history (waiting : Multiset (CallStance V)) l.store := by
    simpa using hacc
  have hvalid : ∀ x ∈ waiting, Valid l.store x :=
    fun x hx => hacc'.valid x (Multiset.mem_coe.mpr hx)
  refine ⟨fun sem hsem => ?_, fun task htask hsending => ?_, fun task htask sem hcommand => ?_⟩
  · have hcounted := hacc'.counted sem hsem
    rw [held_eq hmatch hvalid]
    omega
  · obtain ⟨x, hx, hstands, hwaits, hne⟩ := hmatch.exists_stance htask
    have hheld := fun sem => holds_iff hstands hwaits hne (hvalid x hx) sem
    rw [← hwaits] at hsending
    unfold isSending at hsending
    split at hsending
    · next heq =>
      obtain ⟨sem, hstate⟩ := (hvalid x hx).sending _ heq
      refine ⟨sem, (hvalid x hx).known sem (by rw [hstate]; rfl), fun sem' => ?_⟩
      rw [hheld, hstate]
      simp [eq_comm]
    · cases hsending
  · exact justified_wait hmatch hacc' hidle htask hcommand

end runs

/-! ## A request whose call is under way -/

/-- The first request of a process, up to its HTTP call. -/
theorem exists_run_underWay : ∃ tr l, Run (CallStep (V := String) ⟨1⟩) (Loop.fresh {}) tr l ∧
    l.running = none ∧ underWay l = 1 := by
  have hstart : Run (CallStep (V := String) ⟨1⟩) (Loop.fresh {}) _ _ :=
    .single (.start (b := .request sampleConnector sampleRequest) rfl)
  have hclosed : CallStore.Answer {} (.await (.allowRequest : Cmd String))
      (some (.ok ⟨true, CircuitBreaker.modeClosed⟩)) {} := .await
  have hallowed := hstart.snoc (.answer rfl hclosed)
  have hmade := ((hallowed.snoc (.answer rfl .readSemaphore)).snoc
    (.answer rfl (@CallStore.Answer.newSemaphore String _ 1))).snoc (.answer rfl .writeSemaphore)
  have hacquired := (hmade.snoc (.answer rfl .readSemaphore)).snoc
    (.answer rfl (.acquire (by decide)))
  exact ⟨_, _, hacquired.snoc (.suspend rfl .await), rfl, rfl⟩

theorem calls_limited_underWay : ∃ tr l, Run (CallStep (V := String) ⟨1⟩) (Loop.fresh {}) tr l ∧
    underWay l = 1 ∧ underWay l ≤ 1 * (resets l.history + 1) := by
  obtain ⟨tr, l, hrun, -, hone⟩ := exists_run_underWay
  exact ⟨tr, l, hrun, hone, calls_limited hrun⟩

theorem permits_conserved_underWay : ∃ tr l,
    Run (CallStep (V := String) ⟨1⟩) (Loop.fresh {}) tr l ∧ underWay l = 1 ∧
      PermitsConserved ⟨1⟩ l := by
  obtain ⟨tr, l, hrun, hidle, hone⟩ := exists_run_underWay
  exact ⟨tr, l, hrun, hone, permits_conserved hrun hidle⟩

end BaseWebService.Connector.Concurrency
