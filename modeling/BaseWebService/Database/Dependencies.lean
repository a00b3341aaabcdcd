import BaseWebService.Database.Lifecycle

/-!
# Sessions as dependencies

`get_auto_session` and `get_db_session` of `core/db/dependencies.py`, driven as FastAPI drives a
dependency that yields: it is advanced to its session, and once the handler is done it is resumed,
or the exception of the handler is raised in it. `get_db_session` loops over `get_auto_session`, and
a loop does not hand exceptions on.
-/

namespace BaseWebService.Database

open Library

variable {γ ε β α : Type} {misuse : Gen.Misuse (Raised ε β)} {oracle : Oracle γ ε}
  {s : Session γ ε}

variable (misuse) in
def getAutoSession : SessionGen γ ε β Unit Unit := do
  let _ ← Gen.asyncWith misuse (managedSession .auto) fun session => .yieldOnce session

variable (misuse) in
def getDbSession : SessionGen γ ε β Unit Unit :=
  Gen.asyncFor (fun session => .yieldOnce session) (getAutoSession misuse)

/-- What the driver finds when it has control again: the generator has ended, or yields. -/
inductive Driven where
  | ended
  | yielded
  deriving DecidableEq

/-- Control is back at the driver. -/
def regain : Unit ⊕ Unit × (Resume (Raised ε β) → SessionGen γ ε β Unit Unit) → Driven
  | .inl _ => .ended
  | .inr _ => .yielded

/-- How a program ends. -/
def attempt (p : SessionProg γ ε β α) : SessionProg γ ε β (Except (Raised ε β) α) :=
  Prog.handle (do return .ok (← p)) fun e => pure (.error e)

/-- FastAPI runs the handler on what the dependency yields. -/
def drive (dependency : SessionGen γ ε β Unit Unit) (handler : SessionProg γ ε β α) :
    SessionProg γ ε β Driven := do
  match ← dependency.advance with
  | .inl _ => return .ended
  | .inr (_, k) =>
    match ← attempt handler with
    | .ok _ => return regain (← (k .next).advance)
    | .error e => return regain (← (k (.throw e)).advance)

/-- The driver sees the same from both dependencies: the same operations and the same result. -/
def DrivenAlike (misuse : Gen.Misuse (Raised ε β)) (oracle : Oracle γ ε)
    (handler : SessionProg γ ε β α) (s : Session γ ε) : Prop :=
  let db := (drive (getDbSession misuse) handler).run (Session.exec oracle) s
  let auto := (drive (getAutoSession misuse) handler).run (Session.exec oracle) s
  db.2.log = auto.2.log ∧ db.1 = auto.1

theorem run_attempt (p : SessionProg γ ε β α) (s : Session γ ε) :
    (attempt p).run (Session.exec oracle) s =
      (.ok (p.run (Session.exec oracle) s).1, (p.run (Session.exec oracle) s).2) := by
  rw [attempt, Prog.run_handle, Prog.run_bind]
  rcases p.run (Session.exec oracle) s with ⟨_ | _, t⟩
  · rfl
  · rfl

/-- What `get_auto_session` does from its `yield` on. -/
def autoResumed (misuse : Gen.Misuse (Raised ε β)) (r : Resume (Raised ε β)) :
    SessionGen γ ε β Unit Unit :=
  (Gen.ofProg (resumed .auto r).advance).bind fun
    | .inl _ => .ret ()
    | .inr _ => .raise misuse.didNotStop

theorem getAutoSession_eq :
    (getAutoSession misuse : SessionGen γ ε β Unit Unit) = .yield () (autoResumed misuse) := by
  unfold getAutoSession Gen.asyncWith
  rw [managedSession_eq]
  change Gen.yield () _ = _
  congr 1
  funext r
  cases r with
  | next | throw =>
    change Gen.bind (Gen.bind (Gen.ofProg _) _) _ = Gen.bind (Gen.ofProg _) _
    rw [Gen.bind_assoc]
    congr 1
    funext x
    cases x <;> rfl

theorem getDbSession_eq : (getDbSession misuse : SessionGen γ ε β Unit Unit) = .yield () fun
    | .next => Gen.asyncFor (fun session => .yieldOnce session) (autoResumed misuse .next)
    | .throw e => .raise e := by
  rw [getDbSession, getAutoSession_eq]
  change Gen.yield () _ = _
  congr 1
  funext r
  cases r with
  | next => rfl
  | throw => rfl

/-- Where `managed_session` ends, so does `get_auto_session`. -/
theorem autoResumed_ends {r : Resume (Raised ε β)} {result : Except (Raised ε β) Unit}
    {t : Session γ ε} (h : Gen.Ends (Session.exec oracle) (resumed .auto r) s result t) :
    Gen.Ends (Session.exec oracle) (autoResumed misuse r) s result t := by
  have hadvance : Gen.Ends (Session.exec oracle) (Gen.ofProg (resumed .auto r).advance :
      SessionGen γ ε β Unit _) s _ t := .ofProg h.advance
  cases result with
  | ok => exact hadvance.bind_ok (.ret ())
  | error e => exact hadvance.bind_error

/-- Driving a dependency whose generator ends when it is resumed. -/
theorem run_drive {dependency : SessionGen γ ε β Unit Unit}
    {k : Resume (Raised ε β) → SessionGen γ ε β Unit Unit} (hdependency : dependency = .yield () k)
    {handler : SessionProg γ ε β α} {outcome : Except (Raised ε β) α} {t u : Session γ ε}
    {result : Except (Raised ε β) Unit}
    (hhandler : handler.run (Session.exec oracle) s = (outcome, t))
    (hends : Gen.Ends (Session.exec oracle) (k (match outcome with
      | .ok _ => .next
      | .error e => .throw e)) t result u) :
    (drive dependency handler).run (Session.exec oracle) s =
      (result.map fun _ => .ended, u) := by
  subst hdependency
  have hadvance := hends.advance
  have hrest : ∀ r : Resume (Raised ε β),
      (k r).advance.run (Session.exec oracle) t = (result.map .inl, u) →
        (do return regain (← (k r).advance) : SessionProg γ ε β Driven).run
          (Session.exec oracle) t = (result.map fun _ => .ended, u) := by
    intro r hr
    rw [Prog.run_bind, hr]
    cases result <;> rfl
  unfold drive
  change ((attempt handler) >>= _).run _ s = _
  rw [Prog.run_bind, run_attempt, hhandler]
  cases outcome with
  | ok a => exact hrest .next hadvance
  | error e => exact hrest (.throw e) hadvance

/-- A session that is closed is not as it was. -/
theorem abandon_log_ne (mode : SessionMode) (e : Raised ε β) (s : Session γ ε) :
    (abandon oracle mode e s).2.log ≠ s.log := by
  have hne : ∀ {x : Happening γ ε} {log tail : List (Happening γ ε)}, log ++ x :: tail ≠ log := by
    intro x log tail heq
    have hlength := congrArg List.length heq
    simp at hlength
  cases e with
  | base b => exact hne
  | exception e =>
    by_cases hmode : mode ≠ .read
    · simp only [abandon, if_pos hmode]
      obtain ⟨raised, -, hlog⟩ := rollBack_eq oracle e s
      exact hlog.symm ▸ hne
    · simp only [abandon, if_neg hmode]
      exact hne

/-- The two dependencies are driven alike if and only if the handler raises nothing. -/
theorem drivenAlike_iff (handler : SessionProg γ ε β α) :
    DrivenAlike misuse oracle handler s ↔
      ∃ a, (handler.run (Session.exec oracle) s).1 = .ok a := by
  unfold DrivenAlike
  cases hhandler : handler.run (Session.exec oracle) s with
  | mk outcome t =>
    cases outcome with
    | ok a =>
      have hends : Gen.Ends (Session.exec oracle) (autoResumed misuse .next) t _ _ :=
        autoResumed_ends resumed_ends_next
      rw [run_drive getAutoSession_eq hhandler hends,
        run_drive getDbSession_eq hhandler hends.asyncFor]
      exact ⟨fun _ => ⟨a, rfl⟩, fun _ => ⟨rfl, rfl⟩⟩
    | error e =>
      have hends : Gen.Ends (Session.exec oracle) (autoResumed misuse (.throw e)) t _ _ :=
        autoResumed_ends (resumed_ends_throw e)
      rw [run_drive getAutoSession_eq hhandler hends,
        run_drive getDbSession_eq hhandler (.raise e)]
      refine ⟨fun h => absurd h.1.symm (abandon_log_ne .auto e t), ?_⟩
      rintro ⟨a, ha⟩
      cases ha

/-- A handler that registers a callback and fails. -/
def registerThenFail : SessionProg ℕ Unit Unit Unit :=
  .call (.register 1) fun _ => .raise (.exception ())

/-- The session of a handler that fails is neither rolled back nor closed. -/
theorem failing_handler_not_alike : ¬ DrivenAlike plainMisuse firstRaises registerThenFail .fresh ∧
    ((drive (getDbSession plainMisuse) registerThenFail).run
      (Session.exec firstRaises) .fresh).2.log = [.registered 1] ∧
    ((drive (getAutoSession plainMisuse) registerThenFail).run
      (Session.exec firstRaises) .fresh).2.log =
        [.registered 1, .performed .rollback none, .performed .close none] := by
  refine ⟨fun h => absurd h.1 ?_, rfl, rfl⟩
  decide

end BaseWebService.Database
