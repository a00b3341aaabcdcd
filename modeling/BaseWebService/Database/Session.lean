import BaseWebService.Library.Generator

/-!
# Managed sessions

`managed_session` of `core/db/session_manager.py`, `CallBackAfterCommit` of
`core/db/callbacks_after_commit.py`. Commit, rollback, close and the callbacks may each raise; which
of them do, and when, is up to an oracle that sees all that has happened so far.
-/

namespace BaseWebService.Database

open Library

inductive SessionMode where
  | read
  | write
  | auto
  deriving DecidableEq

/-- What can be raised: an `Exception`, or a `BaseException` that is none. -/
inductive Raised (ε β : Type) where
  | exception (e : ε)
  | base (b : β)
  deriving DecidableEq

def Raised.isException {ε β : Type} : Raised ε β → Bool
  | .exception _ => true
  | .base _ => false

/-- What takes effect outside the program. -/
inductive Op (γ : Type) where
  | commit
  | rollback
  | close
  | callback (callback : γ)
  deriving DecidableEq

/-- What has happened to a session: an operation comes with the exception it has raised, if any. -/
inductive Happening (γ ε : Type) where
  | registered (callback : γ)
  | performed (op : Op γ) (raised : Option ε)
  deriving DecidableEq

/-- `callbacks` is `sync_session.info.get("after_commit_callbacks")`. -/
structure Session (γ ε : Type) where
  callbacks : Option (List γ)
  log : List (Happening γ ε)

inductive Call (γ : Type) where
  /-- `CallBackAfterCommit(session).register(callback)`. -/
  | register (callback : γ)
  /-- `sync_session.info.pop("after_commit_callbacks", [])`. -/
  | popCallbacks
  | perform (op : Op γ)

def Call.Reply (γ ε : Type) : Call γ → Type
  | .register _ => Unit
  | .popCallbacks => List γ
  | .perform _ => Option ε

/-- What a block does to its session: it registers callbacks, and commits or rolls back. -/
inductive Call.IsBlock {γ : Type} : Call γ → Prop where
  | register (callback : γ) : IsBlock (.register callback)
  | commit : IsBlock (.perform .commit)
  | rollback : IsBlock (.perform .rollback)

/-- What a block does that neither commits nor rolls back. -/
inductive Call.IsRegister {γ : Type} : Call γ → Prop where
  | intro (callback : γ) : IsRegister (.register callback)

abbrev Oracle (γ ε : Type) := List (Happening γ ε) → Op γ → Option ε

variable {γ ε β Y α : Type}

namespace Session

/-- A new session. -/
def fresh : Session γ ε := ⟨none, []⟩

variable (oracle : Oracle γ ε)

def register (callback : γ) (s : Session γ ε) : Session γ ε :=
  ⟨some (s.callbacks.getD [] ++ [callback]), s.log ++ [.registered callback]⟩

def popCallbacks (s : Session γ ε) : Session γ ε := { s with callbacks := none }

def perform (op : Op γ) (s : Session γ ε) : Session γ ε :=
  { s with log := s.log ++ [.performed op (oracle s.log op)] }

def exec : (c : Call γ) → Session γ ε → c.Reply γ ε × Session γ ε
  | .register callback, s => ((), s.register callback)
  | .popCallbacks, s => (s.callbacks.getD [], s.popCallbacks)
  | .perform op, s => (oracle s.log op, s.perform oracle op)

@[simp] theorem perform_callbacks (op : Op γ) (s : Session γ ε) :
    (s.perform oracle op).callbacks = s.callbacks := rfl
@[simp] theorem perform_log (op : Op γ) (s : Session γ ε) :
    (s.perform oracle op).log = s.log ++ [.performed op (oracle s.log op)] := rfl
@[simp] theorem popCallbacks_log (s : Session γ ε) : s.popCallbacks.log = s.log := rfl

end Session

section programs
variable (γ ε β Y α)

abbrev SessionProg := Prog (Call γ) (Call.Reply γ ε) (Raised ε β) α
abbrev SessionGen := Gen (Call γ) (Call.Reply γ ε) Y (Raised ε β) α

end programs

/-- `await session.commit()` and the like. -/
def perform (op : Op γ) : SessionGen γ ε β Y Unit := do
  match ← (.perform (Call.perform op) : SessionGen γ ε β Y (Option ε)) with
  | none => pure ()
  | some e => .throw (.exception e)

def popCallbacks : SessionGen γ ε β Y (List γ) := .perform Call.popCallbacks

/-- The loop over the callbacks; what one of them raises is logged. -/
def runCallbacks : List γ → SessionGen γ ε β Y Unit
  | [] => pure ()
  | callback :: callbacks => do
    Gen.tryExcept Raised.isException (perform (.callback callback)) fun _ => pure ()
    runCallbacks callbacks

def managedSession (mode : SessionMode) : SessionGen γ ε β Unit Unit :=
  Gen.tryFinally
    (Gen.tryExcept Raised.isException
      (do
        .yieldOnce ()
        if mode ≠ .read then
          perform .commit
          let callbacks ← popCallbacks
          runCallbacks callbacks)
      fun e => do
        if mode ≠ .read then
          perform .rollback
          let _ ← popCallbacks
        .throw e)
    (Gen.tryExcept Raised.isException (perform .close) fun _ => pure ())

/-- `async with managed_session(factory, mode) as session: block`. -/
def withSession (misuse : Gen.Misuse (Raised ε β)) (mode : SessionMode)
    (block : SessionProg γ ε β α) : SessionProg γ ε β (Option α) :=
  (Gen.asyncWith misuse (managedSession mode) fun _ => Gen.ofProg block).toProg

/-! ## What each part does to a session -/

section ends
variable {oracle : Oracle γ ε} {s : Session γ ε}

theorem perform_ends_ok {op : Op γ} (h : oracle s.log op = none) : Gen.Ends (Session.exec oracle)
    (perform op : SessionGen γ ε β Y Unit) s (.ok ()) (s.perform oracle op) := by
  have hcall : Gen.Ends (Session.exec oracle)
      (.perform (Call.perform op) : SessionGen γ ε β Y (Option ε)) s (.ok none)
      (s.perform oracle op) := ⟨congrArg Except.ok h.symm, rfl⟩
  exact hcall.bind_ok (.ret ())

theorem perform_ends_error {op : Op γ} {e : ε} (h : oracle s.log op = some e) :
    Gen.Ends (Session.exec oracle) (perform op : SessionGen γ ε β Y Unit) s
      (.error (.exception e)) (s.perform oracle op) := by
  have hcall : Gen.Ends (Session.exec oracle)
      (.perform (Call.perform op) : SessionGen γ ε β Y (Option ε)) s (.ok (some e))
      (s.perform oracle op) := ⟨congrArg Except.ok h.symm, rfl⟩
  exact hcall.bind_ok (.raise _)

theorem popCallbacks_ends : Gen.Ends (Session.exec oracle)
    (popCallbacks : SessionGen γ ε β Y (List γ)) s (.ok (s.callbacks.getD [])) s.popCallbacks :=
  ⟨rfl, rfl⟩

/-- An operation whose exception is caught. -/
theorem quietly_ends (op : Op γ) : Gen.Ends (Session.exec oracle)
    (Gen.tryExcept Raised.isException (perform op) fun _ => pure () : SessionGen γ ε β Y Unit) s
    (.ok ()) (s.perform oracle op) := by
  cases hraised : oracle s.log op with
  | none => exact (perform_ends_ok hraised).tryExcept_ok
  | some e => exact (perform_ends_error hraised).tryExcept_caught rfl (.ret ())

/-- Every callback is run, whatever the others raise. -/
theorem runCallbacks_ends (callbacks : List γ) : Gen.Ends (Session.exec oracle)
    (runCallbacks callbacks : SessionGen γ ε β Y Unit) s (.ok ())
    (callbacks.foldl (fun s callback => s.perform oracle (.callback callback)) s) := by
  induction callbacks generalizing s with
  | nil => exact .ret ()
  | cons callback callbacks ih => exact (quietly_ends (.callback callback)).bind_ok ih

end ends

end BaseWebService.Database
