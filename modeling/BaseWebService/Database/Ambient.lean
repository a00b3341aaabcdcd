import Mathlib.Logic.Function.Basic
import BaseWebService.Database.Lifecycle

/-!
# The ambient session

`AutoSession` of `core/db/auto_session.py`, `session_scope` of `core/db/session_manager.py` and
`BaseRepository` of `core/db/repository.py`, within one task. A block that enables the ambient
session sets a context variable and resets it with the token it was given. `Program.lexical` knows
no such variable: it hands the session of the innermost block down to what the block contains.
-/

namespace BaseWebService.Database

open Library

/-- The exceptions of the sessions, and those raised here. -/
inductive Exc (ε : Type) where
  | runtimeError (message : String)
  | other (e : ε)

/-- A `Token`: what the variable held before the `set` that made it. -/
structure Token where
  serial : ℕ
  old : Option ℕ

/-- All sessions of a task, numbered in the order in which their factories were called, and the
session of every repository that was constructed. -/
structure Sessions (γ ε : Type) where
  calls : ℕ
  session : ℕ → Session γ (Exc ε)
  repositories : List ℕ

/-- `current` is `_current_session.get()`. -/
structure Task (γ ε : Type) where
  current : Option ℕ
  issued : ℕ
  used : List ℕ
  sessions : Sessions γ ε

/-- What the world outside the program does: whether a call of a factory raises, and what the
operations of each session raise. -/
structure Outside (γ ε : Type) where
  factory : ℕ → Option (Exc ε)
  oracle : ℕ → Oracle γ (Exc ε)

inductive TaskCall (γ : Type) where
  /-- `get_session_factory(mode)()`. -/
  | callFactory (mode : SessionMode)
  | session (id : ℕ) (c : Call γ)
  /-- `_current_session.get()`, `.set(session)` and `.reset(token)`. -/
  | get
  | set (id : ℕ)
  | reset (token : Token)
  /-- `self.session = session` in a constructor. -/
  | assign (id : ℕ)

def TaskCall.Reply (γ ε : Type) : TaskCall γ → Type
  | .callFactory _ => Except (Exc ε) ℕ
  | .session _ c => c.Reply γ (Exc ε)
  | .get => Option ℕ
  | .set _ => Token
  | .reset _ => Option (Exc ε)
  | .assign _ => Unit

variable {γ ε β Y α : Type}

namespace Sessions

/-- No factory has been called. -/
def fresh : Sessions γ ε := ⟨0, fun _ => .fresh, []⟩

/-- A call of a factory that does not raise. -/
def opened (s : Sessions γ ε) : Sessions γ ε :=
  { s with calls := s.calls + 1, session := Function.update s.session s.calls .fresh }

def refused (s : Sessions γ ε) : Sessions γ ε := { s with calls := s.calls + 1 }

def put (s : Sessions γ ε) (id : ℕ) (session : Session γ (Exc ε)) : Sessions γ ε :=
  { s with session := Function.update s.session id session }

def assign (s : Sessions γ ε) (id : ℕ) : Sessions γ ε :=
  { s with repositories := s.repositories ++ [id] }

/-- `close()` has been called. -/
def Closed (s : Sessions γ ε) (id : ℕ) : Prop := (s.session id).log.any Happening.isClose = true

end Sessions

namespace Task

def exec (w : Outside γ ε) : (c : TaskCall γ) → Task γ ε → c.Reply γ ε × Task γ ε
  | .callFactory _, s => match w.factory s.sessions.calls with
    | none => (.ok s.sessions.calls, { s with sessions := s.sessions.opened })
    | some e => (.error e, { s with sessions := s.sessions.refused })
  | .session id c, s =>
    let (reply, session) := Session.exec (w.oracle id) c (s.sessions.session id)
    (reply, { s with sessions := s.sessions.put id session })
  | .get, s => (s.current, s)
  | .set id, s => (⟨s.issued, s.current⟩, { s with current := some id, issued := s.issued + 1 })
  | .reset token, s =>
    if token.serial ∈ s.used then (some (.runtimeError "Token has already been used once"), s)
    else (none, { s with current := token.old, used := token.serial :: s.used })
  | .assign id, s => ((), { s with sessions := s.sessions.assign id })

end Task

section programs
variable (γ ε β Y α)

abbrev TaskProg := Prog (TaskCall γ) (TaskCall.Reply γ ε) (Raised (Exc ε) β) α
abbrev TaskGen := Gen (TaskCall γ) (TaskCall.Reply γ ε) Y (Raised (Exc ε) β) α

end programs

/-- What `asynccontextmanager` raises. -/
def misuse : Gen.Misuse (Raised (Exc ε) β) where
  didNotYield := .exception (.runtimeError "generator didn't yield")
  didNotStop := .exception (.runtimeError "generator didn't stop")

/-! ## The code -/

namespace AutoSession

def get : TaskGen γ ε β Y ℕ := do
  match ← (.perform TaskCall.get : TaskGen γ ε β Y (Option ℕ)) with
  | none => .throw (.exception (.runtimeError ("No active database session in context. " ++
      "Use session_scope/managed_session or pass session explicitly.")))
  | some session => pure session

def set (session : ℕ) : TaskGen γ ε β Y Token := .perform (TaskCall.set session)

def reset (token : Token) : TaskGen γ ε β Y Unit := do
  match ← (.perform (TaskCall.reset token) : TaskGen γ ε β Y (Option (Exc ε))) with
  | none => pure ()
  | some e => .throw (.exception e)

end AutoSession

/-- What a generator does to its one session, done to session `id` of the task. -/
def onSession (id : ℕ) : SessionGen γ (Exc ε) β Unit α → TaskGen γ ε β ℕ α
  | .ret a => .ret a
  | .raise e => .raise e
  | .call c k => .call (.session id c) fun r => onSession id (k r)
  | .yield _ k => .yield id fun r => onSession id (k r)

/-- `managed_session(get_session_factory(mode), mode)`. -/
def managedSessionOf (mode : SessionMode) : TaskGen γ ε β ℕ Unit := do
  match ← (.perform (TaskCall.callFactory mode) : TaskGen γ ε β ℕ (Except (Exc ε) ℕ)) with
  | .error e => .throw (.exception e)
  | .ok id => onSession id (managedSession mode)

def sessionScope (mode : SessionMode) (enableAutoSession : Bool) : TaskGen γ ε β ℕ Unit := do
  let _ ← Gen.asyncWith misuse (managedSessionOf mode) fun session =>
    if enableAutoSession then do
      let token ← AutoSession.set session
      Gen.tryFinally (.yieldOnce session) (AutoSession.reset token)
    else .yieldOnce session
  pure ()

/-- `BaseRepository()`. -/
def baseRepository : TaskGen γ ε β Y Unit := do
  let session ← AutoSession.get
  let _ ← (.perform (TaskCall.assign session) : TaskGen γ ε β Y Unit)
  pure ()

/-- What a task may be made of. A handler that is not for an exception raises it again. -/
inductive Program (ε β : Type) where
  | skip
  | seq (first second : Program ε β)
  | scope (mode : SessionMode) (enableAutoSession : Bool) (block : Program ε β)
  | repository
  | raise (e : Raised (Exc ε) β)
  | tryExcept (block : Program ε β) (handler : Raised (Exc ε) β → Program ε β)

namespace Program

def gen : Program ε β → TaskGen γ ε β Empty Unit
  | .skip => pure ()
  | .seq first second => do
    first.gen
    second.gen
  | .scope mode enableAutoSession block => do
    let _ ← Gen.asyncWith misuse (sessionScope mode enableAutoSession) fun _ => block.gen
    pure ()
  | .repository => baseRepository
  | .raise e => .throw e
  | .tryExcept block handler => block.gen.attempt.bind fun
    | .ok _ => pure ()
    | .error e => (handler e).gen

def prog (p : Program ε β) : TaskProg γ ε β Unit := p.gen.toProg

/-- The meaning without a variable: `ambient` is the session of the innermost block around the
program that was opened with `enable_auto_session`. -/
def lexical (w : Outside γ ε) : Program ε β → Option ℕ → Sessions γ ε →
    Except (Raised (Exc ε) β) Unit × Sessions γ ε
  | .skip, _, s => (.ok (), s)
  | .seq first second, ambient, s => match first.lexical w ambient s with
    | (.ok _, t) => second.lexical w ambient t
    | (.error e, t) => (.error e, t)
  | .scope mode enableAutoSession block, ambient, s => match w.factory s.calls with
    | some e => (.error (.exception e), s.refused)
    | none =>
      match block.lexical w (if enableAutoSession then some s.calls else ambient) s.opened with
      | (.ok _, t) => (ending (settle (w.oracle s.calls) mode (t.session s.calls)).1,
          t.put s.calls (settle (w.oracle s.calls) mode (t.session s.calls)).2)
      | (.error e, t) => (.error (abandon (w.oracle s.calls) mode e (t.session s.calls)).1,
          t.put s.calls (abandon (w.oracle s.calls) mode e (t.session s.calls)).2)
  | .repository, ambient, s => match ambient with
    | some id => (.ok (), s.assign id)
    | none => (.error (.exception (.runtimeError ("No active database session in context. " ++
        "Use session_scope/managed_session or pass session explicitly."))), s)
  | .raise e, _, s => (.error e, s)
  | .tryExcept block handler, ambient, s => match block.lexical w ambient s with
    | (.ok a, t) => (.ok a, t)
    | (.error e, t) => (handler e).lexical w ambient t

end Program

/-! ## What is kept -/

namespace Task

/-- No session is ambient after it has been closed. -/
def Safe (s : Task γ ε) : Prop := ∀ id, s.current = some id → ¬ s.sessions.Closed id

structure Sound (s : Task γ ε) : Prop where
  safe : s.Safe
  known : ∀ id, s.current = some id → id < s.sessions.calls
  used : ∀ serial ∈ s.used, serial < s.issued

/-- What a program leaves of the task it was started in: the variable, and the sessions and tokens
that are not its own. -/
structure Frame (s t : Task γ ε) : Prop where
  current : t.current = s.current
  issued : s.issued ≤ t.issued
  used : ∀ serial ∈ t.used, serial ∈ s.used ∨ s.issued ≤ serial ∧ serial < t.issued
  calls : s.sessions.calls ≤ t.sessions.calls
  session : ∀ id < s.sessions.calls, t.sessions.session id = s.sessions.session id

variable {s t u : Task γ ε}

theorem sound_fresh : (⟨none, 0, [], .fresh⟩ : Task γ ε).Sound := by
  constructor
  · intro id hid
    cases hid
  · intro id hid
    cases hid
  · simp

theorem Frame.refl (s : Task γ ε) : s.Frame s :=
  ⟨rfl, Nat.le_refl _, fun _ h => Or.inl h, Nat.le_refl _, fun _ _ => rfl⟩

theorem Frame.trans (h : s.Frame t) (h' : t.Frame u) : s.Frame u := by
  refine ⟨h'.current.trans h.current, Nat.le_trans h.issued h'.issued, ?_,
    Nat.le_trans h.calls h'.calls, ?_⟩
  · intro serial hserial
    have hissued := h'.issued
    rcases h'.used serial hserial with hold | ⟨hnew, hlt⟩
    · rcases h.used serial hold with hold | ⟨hnew, hlt⟩
      · exact Or.inl hold
      · exact Or.inr ⟨hnew, by omega⟩
    · exact Or.inr ⟨Nat.le_trans h.issued hnew, hlt⟩
  · intro id hid
    rw [h'.session id (Nat.lt_of_lt_of_le hid h.calls), h.session id hid]

/-- A session that was ambient before is as it was. -/
theorem Frame.not_closed (h : s.Frame t) (hs : s.Sound) {id : ℕ} (hid : s.current = some id) :
    ¬ t.sessions.Closed id := by
  unfold Sessions.Closed
  rw [h.session id (hs.known id hid)]
  exact hs.safe id hid

theorem Frame.sound (h : s.Frame t) (hs : s.Sound) : t.Sound := by
  refine ⟨?_, ?_, ?_⟩
  · intro id hid
    exact h.not_closed hs (h.current ▸ hid)
  · intro id hid
    exact Nat.lt_of_lt_of_le (hs.known id (h.current ▸ hid)) h.calls
  · intro serial hserial
    rcases h.used serial hserial with hold | ⟨-, hlt⟩
    · exact Nat.lt_of_lt_of_le (hs.used serial hold) h.issued
    · exact hlt

/-- The task in which the block of a scope starts. -/
def enter (s : Task γ ε) (enableAutoSession : Bool) : Task γ ε :=
  if enableAutoSession then
    { s with
      current := some s.sessions.calls, issued := s.issued + 1, sessions := s.sessions.opened }
  else { s with sessions := s.sessions.opened }

/-- The task `t` after the variable has been reset to what it was in `s`. -/
def restore (s : Task γ ε) (enableAutoSession : Bool) (t : Task γ ε) : Task γ ε :=
  if enableAutoSession then { t with current := s.current, used := s.issued :: t.used } else t

@[simp] theorem restore_sessions (s : Task γ ε) (enableAutoSession : Bool) (t : Task γ ε) :
    (s.restore enableAutoSession t).sessions = t.sessions := by
  cases enableAutoSession <;> rfl

theorem sound_opened (hs : s.Sound) :
    ({ s with sessions := s.sessions.opened } : Task γ ε).Sound := by
  refine ⟨?_, ?_, hs.used⟩
  · intro id hid
    have hold : id ≠ s.sessions.calls := Nat.ne_of_lt (hs.known id hid)
    simpa [Sessions.Closed, Sessions.opened, Function.update_of_ne hold] using hs.safe id hid
  · intro id hid
    exact Nat.lt_succ_of_lt (hs.known id hid)

theorem sound_enter (hs : s.Sound) (enableAutoSession : Bool) :
    (s.enter enableAutoSession).Sound := by
  cases enableAutoSession with
  | false => exact sound_opened hs
  | true =>
    refine ⟨?_, ?_, ?_⟩
    · intro id hid
      obtain rfl : s.sessions.calls = id := Option.some.inj hid
      simp [enter, Sessions.Closed, Sessions.opened, Session.fresh]
    · intro id hid
      obtain rfl : s.sessions.calls = id := Option.some.inj hid
      exact Nat.lt_succ_self _
    · intro serial hserial
      exact Nat.lt_succ_of_lt (hs.used serial hserial)

/-- Whatever happens to the session of a block, what was ambient around it stays open. -/
theorem safe_restore (hs : s.Sound) {enableAutoSession : Bool}
    (h : (s.enter enableAutoSession).Frame t) (session : Session γ (Exc ε)) :
    ({ restore s enableAutoSession t with
      sessions := t.sessions.put s.sessions.calls session } : Task γ ε).Safe := by
  intro id hid
  have hcurrent : s.current = some id := by
    cases enableAutoSession with
    | false => exact h.current ▸ hid
    | true => exact hid
  have hold : id ≠ s.sessions.calls := Nat.ne_of_lt (hs.known id hcurrent)
  have hsame : t.sessions.session id = s.sessions.session id := by
    rw [h.session id ?_]
    · cases enableAutoSession <;> simp [enter, Sessions.opened, Function.update_of_ne hold]
    · have hlt := hs.known id hcurrent
      cases enableAutoSession <;> simp only [enter, Sessions.opened] <;> exact Nat.lt_succ_of_lt hlt
  have hopen := hs.safe id hcurrent
  unfold Sessions.Closed at hopen ⊢
  cases enableAutoSession <;>
    simpa [restore, Sessions.put, Function.update_of_ne hold, hsame] using hopen

end Task

/-! ## What each part does -/

section parts
variable {w : Outside γ ε} {s t : Task γ ε} {mode : SessionMode}

/-- What a generator does to a session it does in a task, whatever the others do. -/
theorem onSession_ends {id : ℕ} {g : SessionGen γ (Exc ε) β Unit α}
    {r : Except (Raised (Exc ε) β) α} {session : Session γ (Exc ε)}
    (h : Gen.Ends (Session.exec (w.oracle id)) g (s.sessions.session id) r session)
    (hsafe : ∀ session, ({ s with sessions := s.sessions.put id session } : Task γ ε).Safe) :
    Gen.EndsIn (Task.exec w) Task.Safe (onSession id g) s r
      { s with sessions := s.sessions.put id session } := by
  have hput : ∀ s : Task γ ε, s = { s with
      sessions := s.sessions.put id (s.sessions.session id) } := by
    intro s
    simp [Sessions.put]
  induction g generalizing s with
  | ret | raise =>
    obtain ⟨rfl, rfl⟩ := h
    exact ⟨by rw [hput s]; exact hsafe _, rfl, (hput s).symm⟩
  | call c k ih =>
    let s' : Task γ ε := { s with
      sessions := s.sessions.put id (Session.exec (w.oracle id) c (s.sessions.session id)).2 }
    have hnext : Gen.Ends (Session.exec (w.oracle id))
        (k (Session.exec (w.oracle id) c (s.sessions.session id)).1) (s'.sessions.session id) r
        session := by
      simpa [s', Sessions.put] using (show Gen.Ends _ (k _) _ r session from h)
    have hrest := ih _ hnext (by simpa [s', Sessions.put] using hsafe)
    have hlast : ({ s' with sessions := s'.sessions.put id session } : Task γ ε) =
        { s with sessions := s.sessions.put id session } := by simp [s', Sessions.put]
    rw [hlast] at hrest
    exact ⟨by rw [hput s]; exact hsafe _, hrest⟩
  | yield => exact h.elim

/-- A command and its reply. -/
theorem perform_endsIn {c : TaskCall γ} {reply : c.Reply γ ε} (hs : s.Safe) (ht : t.Safe)
    (hexec : Task.exec w c s = (reply, t)) :
    Gen.EndsIn (Task.exec w) Task.Safe (.perform c : TaskGen γ ε β Y (c.Reply γ ε)) s (.ok reply)
      t := by
  refine ⟨hs, ?_⟩
  rw [hexec]
  exact .ret ht _

theorem managedSessionOf_refused (hs : s.Safe) {e : Exc ε}
    (hfactory : w.factory s.sessions.calls = some e) :
    Gen.EndsIn (Task.exec w) Task.Safe (managedSessionOf mode : TaskGen γ ε β ℕ Unit) s
      (.error (.exception e)) { s with sessions := s.sessions.refused } := by
  have hexec : Task.exec w (.callFactory mode) s =
      (.error e, { s with sessions := s.sessions.refused }) := by simp [Task.exec, hfactory]
  refine (perform_endsIn hs ?_ hexec).bind_ok (.raise ?_ _) <;> exact hs

theorem managedSessionOf_yields (hs : s.Sound) (hfactory : w.factory s.sessions.calls = none) :
    Gen.Yields (Task.exec w) Task.Safe (managedSessionOf mode : TaskGen γ ε β ℕ Unit) s
      s.sessions.calls (fun r => onSession s.sessions.calls (resumed mode r))
      { s with sessions := s.sessions.opened } := by
  have hexec : Task.exec w (.callFactory mode) s =
      (.ok s.sessions.calls, { s with sessions := s.sessions.opened }) := by
    simp [Task.exec, hfactory]
  have hopened := (Task.sound_opened hs).safe
  refine (perform_endsIn hs.safe hopened hexec).bind_yields ?_
  change Gen.Yields _ _ (onSession _ (managedSession mode)) _ _ _ _
  rw [managedSession_eq]
  exact .yield hopened

/-- What `session_scope` does with the variable from its `yield` on. -/
def resetAfter (s : Task γ ε) (enableAutoSession : Bool) (r : Resume (Raised (Exc ε) β)) :
    TaskGen γ ε β ℕ Unit :=
  if enableAutoSession then
    Gen.tryFinally (Gen.resumeOnce r) (AutoSession.reset ⟨s.issued, s.current⟩)
  else Gen.resumeOnce r

theorem sessionScope_yields (hs : s.Sound) (hfactory : w.factory s.sessions.calls = none)
    (enableAutoSession : Bool) :
    Gen.Yields (Task.exec w) Task.Safe
      (sessionScope mode enableAutoSession : TaskGen γ ε β ℕ Unit) s s.sessions.calls
      (fun r => (Gen.leaveWith misuse (fun r => onSession s.sessions.calls (resumed mode r))
        (resetAfter s enableAutoSession r)).bind fun _ => .ret ())
      (s.enter enableAutoSession) := by
  have hmanager : Gen.Yields (Task.exec w) Task.Safe
      (managedSessionOf mode : TaskGen γ ε β ℕ Unit) s _ _ _ := managedSessionOf_yields hs hfactory
  have hentered := (Task.sound_enter hs enableAutoSession).safe
  refine Gen.Yields.bind (hmanager.asyncWith ?_)
  cases enableAutoSession with
  | false => exact .yieldOnce hentered
  | true =>
    have hexec : Task.exec w (.set s.sessions.calls) { s with sessions := s.sessions.opened } =
      (⟨s.issued, s.current⟩, s.enter true) := rfl
    exact (perform_endsIn (Task.sound_opened hs).safe hentered hexec).bind_yields
      (Gen.Yields.yieldOnce hentered).tryFinally

/-- The variable is reset, whatever the block has done. -/
theorem resetAfter_ends (hs : s.Sound) {enableAutoSession : Bool}
    (hframe : (s.enter enableAutoSession).Frame t) (r : Except (Raised (Exc ε) β) Unit) :
    Gen.EndsIn (Task.exec w) Task.Safe (resetAfter s enableAutoSession (Gen.resume r)) t r
      (s.restore enableAutoSession t) := by
  have ht := (hframe.sound (Task.sound_enter hs enableAutoSession)).safe
  cases enableAutoSession with
  | false => exact .resumeOnce ht r
  | true =>
    have hfresh : s.issued ∉ t.used := by
      intro hused
      rcases hframe.used _ hused with hold | ⟨hnew, -⟩
      · exact Nat.lt_irrefl _ (hs.used _ hold)
      · exact Nat.lt_irrefl _ hnew
    have hexec : Task.exec w (.reset ⟨s.issued, s.current⟩) t = (none, s.restore true t) :=
      if_neg hfresh
    have hrestored : (s.restore true t).Safe := by
      have hsame : t.sessions.put s.sessions.calls (t.sessions.session s.sessions.calls) =
        t.sessions := by simp [Sessions.put]
      have hsafe := Task.safe_restore hs hframe (t.sessions.session s.sessions.calls)
      rwa [hsame] at hsafe
    exact (Gen.EndsIn.resumeOnce ht r).tryFinally
      ((perform_endsIn ht hrestored hexec).bind_ok (.ret hrestored ()))

/-- What the end of a scope makes of its session, and of the result of its block. -/
def Outside.exit (w : Outside γ ε) (mode : SessionMode) (id : ℕ)
    (r : Except (Raised (Exc ε) β) Unit) (session : Session γ (Exc ε)) :
    Except (Raised (Exc ε) β) Unit × Session γ (Exc ε) :=
  match r with
  | .ok _ => (ending (settle (w.oracle id) mode session).1, (settle (w.oracle id) mode session).2)
  | .error e =>
    (.error (abandon (w.oracle id) mode e session).1, (abandon (w.oracle id) mode e session).2)

variable (mode) in
theorem resumed_ends {id : ℕ} (r : Except (Raised (Exc ε) β) Unit) (session : Session γ (Exc ε)) :
    Gen.Ends (Session.exec (w.oracle id)) (resumed mode (Gen.resume r)) session
      (w.exit mode id r session).1 (w.exit mode id r session).2 := by
  cases r with
  | ok => exact resumed_ends_next
  | error e => exact resumed_ends_throw e

/-- The task after a scope. -/
def Task.leave (w : Outside γ ε) (mode : SessionMode) (s : Task γ ε) (enableAutoSession : Bool)
    (r : Except (Raised (Exc ε) β) Unit) (t : Task γ ε) : Task γ ε :=
  { s.restore enableAutoSession t with
    sessions := t.sessions.put s.sessions.calls
      (w.exit mode s.sessions.calls r (t.sessions.session s.sessions.calls)).2 }

variable (mode) in
/-- A scope whose factory does not raise, around any block that leaves its task in order. -/
theorem scope_ends (hs : s.Sound) (hfactory : w.factory s.sessions.calls = none)
    {enableAutoSession : Bool} {block : TaskGen γ ε β Empty Unit}
    {r : Except (Raised (Exc ε) β) Unit}
    (hblock : Gen.EndsIn (Task.exec w) Task.Safe block (s.enter enableAutoSession) r t)
    (hframe : (s.enter enableAutoSession).Frame t) :
    Gen.EndsIn (Task.exec w) Task.Safe
      ((Gen.asyncWith misuse (sessionScope mode enableAutoSession) fun _ => block).bind fun _ =>
        .ret ()) s (w.exit mode s.sessions.calls r (t.sessions.session s.sessions.calls)).1
      (s.leave w mode enableAutoSession r t) := by
  have hyields : Gen.Yields (Task.exec w) Task.Safe
      (sessionScope mode enableAutoSession : TaskGen γ ε β ℕ Unit) s _ _ _ :=
    sessionScope_yields hs hfactory enableAutoSession
  have hreset := resetAfter_ends (w := w) hs hframe r
  have hsession : Gen.EndsIn (Task.exec w) Task.Safe
      (onSession s.sessions.calls (resumed mode (Gen.resume r))) (s.restore enableAutoSession t)
      (w.exit mode s.sessions.calls r (t.sessions.session s.sessions.calls)).1
      (s.leave w mode enableAutoSession r t) := by
    have hsafe := Task.safe_restore hs hframe
    have hends : Gen.Ends (Session.exec (w.oracle s.sessions.calls)) _ _ _ _ :=
      resumed_ends mode r (t.sessions.session s.sessions.calls)
    rw [← Task.restore_sessions s enableAutoSession t] at hsafe hends
    simpa only [Task.restore_sessions, Task.leave] using onSession_ends hends hsafe
  have hexit : Gen.EndsIn (Task.exec w) Task.Safe ((Gen.leaveWith misuse
      (fun r => onSession s.sessions.calls (resumed mode r))
      (resetAfter s enableAutoSession (Gen.resume r))).bind fun _ => .ret ()) t _ _ :=
    (hreset.leaveWith (k := fun r => onSession s.sessions.calls (resumed mode r)) hsession).discard
  rw [Gen.withManager_map] at hexit
  have hdone := (Gen.EndsIn.asyncWith misuse (fun _ => block) hyields hblock hexit).discard
  rwa [Gen.withManager_map] at hdone

/-- A scope whose factory raises leaves everything as it is. -/
theorem scope_refused (hs : s.Sound) {e : Exc ε} (hfactory : w.factory s.sessions.calls = some e)
    (enableAutoSession : Bool) (block : TaskGen γ ε β Empty Unit) :
    Gen.EndsIn (Task.exec w) Task.Safe
      ((Gen.asyncWith misuse (sessionScope mode enableAutoSession) fun _ => block).bind fun _ =>
        .ret ()) s (.error (.exception e)) { s with sessions := s.sessions.refused } := by
  have hmanager : Gen.EndsIn (Task.exec w) Task.Safe
      (managedSessionOf mode : TaskGen γ ε β ℕ Unit) s _ _ :=
    managedSessionOf_refused hs.safe hfactory
  have hscope : Gen.EndsIn (Task.exec w) Task.Safe
      (sessionScope mode enableAutoSession : TaskGen γ ε β ℕ Unit) s _ _ :=
    (hmanager.asyncWith_enter misuse _).bind_error
  exact (hscope.asyncWith_enter misuse _).bind_error

/-- What a scope leaves of the task it was opened in. -/
theorem leave_frame {enableAutoSession : Bool}
    (h : (s.enter enableAutoSession).Frame t) (r : Except (Raised (Exc ε) β) Unit) :
    s.Frame (s.leave w mode enableAutoSession r t) := by
  have hcalls : s.sessions.calls < t.sessions.calls := by
    have hentered : (s.enter enableAutoSession).sessions.calls = s.sessions.calls + 1 := by
      cases enableAutoSession <;> rfl
    have hcalls := h.calls
    rw [hentered] at hcalls
    exact Nat.lt_of_succ_le hcalls
  have hsession : ∀ id < s.sessions.calls,
      (s.leave w mode enableAutoSession r t).sessions.session id = s.sessions.session id := by
    intro id hid
    have hold : id ≠ s.sessions.calls := Nat.ne_of_lt hid
    have hsame : t.sessions.session id = (s.enter enableAutoSession).sessions.session id := by
      apply h.session
      cases enableAutoSession <;> exact Nat.lt_succ_of_lt hid
    have hentered : (s.enter enableAutoSession).sessions.session id = s.sessions.session id := by
      cases enableAutoSession <;>
        simp [Task.enter, Sessions.opened, Function.update_of_ne hold]
    simp [Task.leave, Sessions.put, Function.update_of_ne hold, hsame, hentered]
  cases enableAutoSession with
  | false =>
    exact ⟨h.current, h.issued, h.used, Nat.le_of_lt hcalls, hsession⟩
  | true =>
    have hissued : s.issued + 1 ≤ t.issued := h.issued
    refine ⟨rfl, Nat.le_of_succ_le hissued, ?_, Nat.le_of_lt hcalls, hsession⟩
    intro serial hserial
    rcases List.mem_cons.mp hserial with rfl | hused
    · exact Or.inr ⟨Nat.le_refl _, hissued⟩
    · rcases h.used serial hused with hold | ⟨hnew, hlt⟩
      · exact Or.inl hold
      · exact Or.inr ⟨Nat.le_of_succ_le hnew, hlt⟩

end parts

namespace Program

variable {w : Outside γ ε}

/-- The code does what the lexical meaning says, and keeps the variable in order. -/
theorem gen_ends (p : Program ε β) {s : Task γ ε} (hs : s.Sound) :
    ∃ t : Task γ ε, Gen.EndsIn (Task.exec w) Task.Safe (p.gen : TaskGen γ ε β Empty Unit) s
        (p.lexical w s.current s.sessions).1 t ∧
      t.sessions = (p.lexical w s.current s.sessions).2 ∧ s.Frame t := by
  induction p generalizing s with
  | skip => exact ⟨s, .ret hs.safe (), rfl, .refl s⟩
  | raise e => exact ⟨s, .raise hs.safe e, rfl, .refl s⟩
  | repository =>
    have hget : Task.exec w .get s = (s.current, s) := rfl
    cases hcurrent : s.current with
    | none =>
      have hsession : Gen.EndsIn (Task.exec w) Task.Safe
          (AutoSession.get : TaskGen γ ε β Empty ℕ) s (.error _) s :=
        (perform_endsIn hs.safe hs.safe (hcurrent ▸ hget)).bind_ok (.raise hs.safe _)
      exact ⟨s, hsession.bind_error, rfl, .refl s⟩
    | some id =>
      let t : Task γ ε := { s with sessions := s.sessions.assign id }
      have hsession : Gen.EndsIn (Task.exec w) Task.Safe
          (AutoSession.get : TaskGen γ ε β Empty ℕ) s (.ok id) s :=
        (perform_endsIn hs.safe hs.safe (hcurrent ▸ hget)).bind_ok (.ret hs.safe id)
      have ht : t.Safe := hs.safe
      have hassign : Gen.EndsIn (Task.exec w) Task.Safe
          (.perform (TaskCall.assign id) : TaskGen γ ε β Empty Unit) s (.ok ()) t := by
        have hexec : Task.exec w (.assign id) s = ((), t) := rfl
        exact perform_endsIn hs.safe ht hexec
      have hframe : s.Frame t :=
        ⟨rfl, Nat.le_refl _, fun _ h => Or.inl h, Nat.le_refl _, fun _ _ => rfl⟩
      exact ⟨t, hsession.bind_ok (hassign.bind_ok (.ret ht ())), rfl, hframe⟩
  | seq first second ihfirst ihsecond =>
    obtain ⟨t, hends, hsessions, hframe⟩ := ihfirst hs
    simp only [gen, lexical]
    cases hresult : first.lexical w s.current s.sessions with
    | mk r u =>
      rw [hresult] at hends hsessions
      cases r with
      | error e => exact ⟨t, hends.bind_error, hsessions, hframe⟩
      | ok =>
        obtain ⟨t', hends', hsessions', hframe'⟩ := ihsecond (hframe.sound hs)
        rw [hframe.current, hsessions] at hends' hsessions'
        exact ⟨t', hends.bind_ok hends', hsessions', hframe.trans hframe'⟩
  | tryExcept block handler ihblock ihhandler =>
    obtain ⟨t, hends, hsessions, hframe⟩ := ihblock hs
    simp only [gen, lexical]
    cases hresult : block.lexical w s.current s.sessions with
    | mk r u =>
      rw [hresult] at hends hsessions
      cases r with
      | ok => exact ⟨t, hends.attempt.bind_ok (.ret hends.stop ()), hsessions, hframe⟩
      | error e =>
        obtain ⟨t', hends', hsessions', hframe'⟩ := ihhandler e (hframe.sound hs)
        rw [hframe.current, hsessions] at hends' hsessions'
        exact ⟨t', hends.attempt.bind_ok hends', hsessions', hframe.trans hframe'⟩
  | scope mode enableAutoSession block ih =>
    simp only [gen, lexical]
    cases hfactory : w.factory s.sessions.calls with
    | some e =>
      let t : Task γ ε := { s with sessions := s.sessions.refused }
      have hframe : s.Frame t :=
        ⟨rfl, Nat.le_refl _, fun _ h => Or.inl h, Nat.le_succ _, fun _ _ => rfl⟩
      exact ⟨t, scope_refused hs hfactory enableAutoSession block.gen, rfl, hframe⟩
    | none =>
      obtain ⟨t, hends, hsessions, hframe⟩ := ih (Task.sound_enter hs enableAutoSession)
      have hcurrent : (s.enter enableAutoSession).current =
          if enableAutoSession then some s.sessions.calls else s.current := by
        cases enableAutoSession <;> rfl
      have hopened : (s.enter enableAutoSession).sessions = s.sessions.opened := by
        cases enableAutoSession <;> rfl
      rw [hcurrent, hopened] at hends hsessions
      cases hresult : block.lexical w (if enableAutoSession then some s.sessions.calls
        else s.current) s.sessions.opened with
      | mk r u =>
        rw [hresult] at hends hsessions
        obtain rfl : t.sessions = u := hsessions
        refine ⟨s.leave w mode enableAutoSession r t, ?_, ?_, leave_frame hframe r⟩
        · have hscope := scope_ends mode hs hfactory hends hframe
          cases r <;> exact hscope
        · cases r <;> rfl

/-- A program does what its lexical meaning says: a repository is given the session of the innermost
block around it that enables the ambient session, and there is an exception where there is none.
However it ends, the ambient session is the one it was started with; and at no time is a session
ambient that has been closed. -/
theorem ambient_discipline (p : Program ε β) {s : Task γ ε} (hs : s.Sound) :
    ((p.prog.run (Task.exec w) s).1, (p.prog.run (Task.exec w) s).2.sessions) =
        p.lexical w s.current s.sessions ∧
      (p.prog.run (Task.exec w) s).2.current = s.current ∧
      (p.prog.run (Task.exec w) s).2.Sound ∧
      ∀ u ∈ p.prog.visited (Task.exec w) s, ∀ id, u.current = some id → ¬ u.sessions.Closed id := by
  obtain ⟨t, hends, hsessions, hframe⟩ := p.gen_ends hs (w := w)
  obtain ⟨hrun, hvisited⟩ := hends.toProg
  have hprog : p.prog.run (Task.exec w) s = _ := hrun
  rw [hprog]
  exact ⟨Prod.ext rfl hsessions, hframe.current, hframe.sound hs, hvisited⟩

/-- Every commit of the second session raises. -/
def secondFails : Outside Unit Unit where
  factory _ := none
  oracle id _ op := if id = 1 ∧ op = .commit then some (.other ()) else none

/-- A repository before, in and after a block that fails, and one outside of all blocks. -/
def nestedBlocks : Program Unit Unit :=
  .seq
    (.scope .write true (.seq .repository (.seq
      (.tryExcept (.scope .write true (.seq (.scope .read false .repository) .repository))
        fun _ => .skip)
      .repository)))
    .repository

/-- The repositories of the inner block are given its session, those around it the outer one. -/
theorem nestedBlocks_ambient :
    (Task.mk none 0 [] Sessions.fresh : Task Unit Unit).Sound ∧
      let outcome := nestedBlocks.prog.run (Task.exec secondFails) ⟨none, 0, [], .fresh⟩
      outcome.1 = .error (.exception (.runtimeError ("No active database session in context. " ++
        "Use session_scope/managed_session or pass session explicitly."))) ∧
      outcome.2.sessions.repositories = [0, 1, 1, 0] ∧ outcome.2.current = none := by
  obtain ⟨hlexical, hcurrent, -, -⟩ :=
    ambient_discipline (w := secondFails) nestedBlocks Task.sound_fresh
  refine ⟨Task.sound_fresh, ?_, ?_, hcurrent⟩
  · exact (Prod.mk.inj hlexical).1
  · exact congrArg Sessions.repositories (Prod.mk.inj hlexical).2

end Program

end BaseWebService.Database
