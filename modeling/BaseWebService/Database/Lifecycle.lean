import BaseWebService.Database.Session

/-!
# The lifecycle of a session

What `managed_session` does once its block has ended is said in full by `settle`; `run_withSession`
derives it from the generator. Whatever fails, the session is closed once, the callbacks are run
after a commit or not at all, and only the block, the commit and the rollback are heard of.
-/

namespace BaseWebService.Database

open Library

variable {γ ε β Y α : Type} {misuse : Gen.Misuse (Raised ε β)} {mode : SessionMode}
  {oracle : Oracle γ ε} {s : Session γ ε}

/-! ## The end of a session -/

/-- The session after all callbacks have been run. -/
def Session.runAll (oracle : Oracle γ ε) (callbacks : List γ) (s : Session γ ε) : Session γ ε :=
  callbacks.foldl (fun s callback => s.perform oracle (.callback callback)) s

/-- What happens where the block or the commit raises and there is something to roll back. -/
def rollBack (oracle : Oracle γ ε) (e : ε) (s : Session γ ε) : ε × Session γ ε :=
  match oracle s.log .rollback with
  | none => (e, ((s.perform oracle .rollback).popCallbacks).perform oracle .close)
  | some e' => (e', (s.perform oracle .rollback).perform oracle .close)

/-- What happens where the block raises. -/
def abandon (oracle : Oracle γ ε) (mode : SessionMode) :
    Raised ε β → Session γ ε → Raised ε β × Session γ ε
  | .exception e, s =>
    if mode ≠ .read then ((rollBack oracle e s).map .exception id)
    else (.exception e, s.perform oracle .close)
  | .base b, s => (.base b, s.perform oracle .close)

/-- What happens where the block ends normally. -/
def settle (oracle : Oracle γ ε) (mode : SessionMode) (s : Session γ ε) : Option ε × Session γ ε :=
  if mode ≠ .read then
    match oracle s.log .commit with
    | none => (none, ((s.perform oracle .commit).popCallbacks.runAll oracle
        (s.callbacks.getD [])).perform oracle .close)
    | some e => (rollBack oracle e (s.perform oracle .commit)).map some id
  else (none, s.perform oracle .close)

/-- What `managed_session` does from its `yield` on. -/
def resumed (mode : SessionMode) (r : Resume (Raised ε β)) : SessionGen γ ε β Unit Unit :=
  Gen.tryFinally
    (Gen.tryExcept Raised.isException
      ((match r with
        | .next => .ret ()
        | .throw e => .raise e : SessionGen γ ε β Unit Unit).bind fun _ => do
        if mode ≠ .read then
          perform .commit
          let callbacks ← popCallbacks
          runCallbacks callbacks)
      fun e => do
        if mode ≠ .read then
          perform .rollback
          let _ ← popCallbacks
        .throw e)
    (Gen.tryExcept Raised.isException (perform .close) fun _ => pure ())

theorem managedSession_eq :
    (managedSession mode : SessionGen γ ε β Unit Unit) = .yield () (resumed mode) := by
  unfold managedSession Gen.yieldOnce Gen.tryFinally Gen.tryExcept
  change Gen.yield () _ = _
  congr 1
  funext r
  cases r with
  | next => rfl
  | throw => rfl

variable (mode) in
/-- What `managed_session` does with what is raised inside it. -/
theorem abandon_ends {g : SessionGen γ ε β Unit Unit} {e : Raised ε β} {t : Session γ ε}
    (h : Gen.Ends (Session.exec oracle) g s (.error e) t) : Gen.Ends (Session.exec oracle)
      (Gen.tryFinally (Gen.tryExcept Raised.isException g fun e => do
          if mode ≠ .read then
            perform .rollback
            let _ ← popCallbacks
          .throw e)
        (Gen.tryExcept Raised.isException (perform .close) fun _ => pure ())) s
      (.error (abandon oracle mode e t).1) (abandon oracle mode e t).2 := by
  cases e with
  | base b => exact (h.tryExcept_missed rfl).tryFinally (quietly_ends .close)
  | exception e =>
    by_cases hmode : mode ≠ .read
    · simp only [abandon, if_pos hmode, rollBack]
      cases hrollback : oracle t.log .rollback with
      | none =>
        refine (h.tryExcept_caught rfl ?_).tryFinally (quietly_ends .close)
        exact (perform_ends_ok hrollback).bind_ok (popCallbacks_ends.bind_ok (.raise _))
      | some e' =>
        refine (h.tryExcept_caught rfl ?_).tryFinally (quietly_ends .close)
        exact (perform_ends_error hrollback).bind_error
    · simp only [abandon, if_neg hmode]
      exact (h.tryExcept_caught rfl (.raise _)).tryFinally (quietly_ends .close)

theorem resumed_ends_throw (e : Raised ε β) : Gen.Ends (Session.exec oracle)
    (resumed mode (.throw e) : SessionGen γ ε β Unit Unit) s
    (.error (abandon oracle mode e s).1) (abandon oracle mode e s).2 :=
  abandon_ends mode (.raise e)

/-- How a generator ends that raises the exception, if there is one. -/
def ending (raised : Option ε) : Except (Raised ε β) Unit :=
  match raised with
  | none => .ok ()
  | some e => .error (.exception e)

theorem resumed_ends_next : Gen.Ends (Session.exec oracle)
    (resumed mode .next : SessionGen γ ε β Unit Unit) s (ending (settle oracle mode s).1)
    (settle oracle mode s).2 := by
  by_cases hmode : mode ≠ .read
  · cases hcommit : oracle s.log .commit with
    | none =>
      simp only [settle, if_pos hmode, hcommit, ending]
      refine Gen.Ends.tryFinally (Gen.Ends.tryExcept_ok ?_) (quietly_ends .close)
      simp only [Gen.ret_bind, if_pos hmode]
      exact (perform_ends_ok hcommit).bind_ok (popCallbacks_ends.bind_ok (runCallbacks_ends _))
    | some e =>
      have hraised : Gen.Ends (Session.exec oracle) ((.ret () : SessionGen γ ε β Unit Unit).bind
          fun _ => do
            if mode ≠ .read then
              perform .commit
              let callbacks ← popCallbacks
              runCallbacks callbacks) s (.error (.exception e)) (s.perform oracle .commit) := by
        simp only [Gen.ret_bind, if_pos hmode]
        exact (perform_ends_error hcommit).bind_error
      have habandon : abandon oracle mode (.exception e : Raised ε β) (s.perform oracle .commit) =
          (rollBack oracle e (s.perform oracle .commit)).map .exception id := if_pos hmode
      simp only [settle, if_pos hmode, hcommit, ending]
      have hends := abandon_ends mode hraised
      rw [habandon] at hends
      exact hends
  · simp only [settle, if_neg hmode, ending]
    refine Gen.Ends.tryFinally (Gen.Ends.tryExcept_ok ?_) (quietly_ends .close)
    simp only [Gen.ret_bind, if_neg hmode]
    exact .ret ()

/-- All that happens in a managed session. -/
theorem run_withSession (block : SessionProg γ ε β α) :
    (withSession misuse mode block).run (Session.exec oracle) s =
      match block.run (Session.exec oracle) s with
      | (.ok a, t) => ((ending (settle oracle mode t).1).map fun _ => some a,
          (settle oracle mode t).2)
      | (.error e, t) => (.error (abandon oracle mode e t).1, (abandon oracle mode e t).2) := by
  cases hblock : block.run (Session.exec oracle) s with
  | mk outcome t =>
    have hbody : Gen.Ends (Session.exec oracle)
        (Gen.ofProg block : SessionGen γ ε β Empty α) s outcome t := .ofProg hblock
    cases outcome with
    | ok a =>
      have hexit : Gen.Ends (Session.exec oracle)
          (resumed mode (Gen.resume (Except.ok a : Except (Raised ε β) α))) t _ _ :=
        resumed_ends_next
      exact (Gen.Ends.asyncWith managedSession_eq hbody hexit).toProg
    | error e =>
      have hexit : Gen.Ends (Session.exec oracle)
          (resumed mode (Gen.resume (Except.error e : Except (Raised ε β) α))) t _ _ :=
        resumed_ends_throw e
      exact (Gen.Ends.asyncWith managedSession_eq hbody hexit).toProg

/-! ## What is to be read off a log -/

/-- The callbacks that have been run, in order. -/
def ran : List (Happening γ ε) → List γ :=
  List.filterMap fun
    | .performed (.callback callback) _ => some callback
    | _ => none

/-- The callbacks that have been registered, in order. -/
def registrations : List (Happening γ ε) → List γ :=
  List.filterMap fun
    | .registered callback => some callback
    | _ => none

/-- What the first rollback that raises has raised. -/
def rollbackRaised : List (Happening γ ε) → Option ε :=
  List.findSome? fun
    | .performed .rollback raised => raised
    | _ => none

def Happening.isCommit : Happening γ ε → Bool
  | .performed .commit _ => true
  | _ => false

def Happening.isClose : Happening γ ε → Bool
  | .performed .close _ => true
  | _ => false

/-- The session is to be committed: its mode is not `read` and the block has ended normally. -/
def Commits (mode : SessionMode) (outcome : Except (Raised ε β) α) : Prop :=
  mode ≠ .read ∧ ∃ a, outcome = .ok a

/-- What the caller sees: the exception of the rollback, or else of the block, or else the one that
the commit of this session raises. -/
def seenResult (mode : SessionMode) (outcome : Except (Raised ε β) α) (commit : Option ε)
    (log : List (Happening γ ε)) : Except (Raised ε β) (Option α) :=
  match rollbackRaised log with
  | some e => .error (.exception e)
  | none => match outcome with
    | .error e => .error e
    | .ok a => match if mode ≠ .read then commit else none with
      | some e => .error (.exception e)
      | none => .ok (some a)

/-- A session that is managed as it should be, from the outcome of its block, what a commit after
the block raises, and the callbacks that the block has registered. -/
structure WellManaged (mode : SessionMode) (outcome : Except (Raised ε β) α) (commit : Option ε)
    (registered : List γ) (log : List (Happening γ ε))
    (result : Except (Raised ε β) (Option α)) : Prop where
  callbacks : Commits mode outcome → commit = none → ran log = registered
  noCallbacks : ¬ (Commits mode outcome ∧ commit = none) → ran log = []
  committed : Commits mode outcome → log.filter Happening.isCommit = [.performed .commit commit]
  notCommitted : ¬ Commits mode outcome → log.filter Happening.isCommit = []
  noRollback : .performed .commit none ∈ log → ∀ raised, .performed .rollback raised ∉ log
  closeOnce : log.countP Happening.isClose = 1
  result : result = seenResult mode outcome commit log

variable (oracle) in
/-- What running all callbacks leaves in the log. -/
theorem runAll_log (callbacks : List γ) (s : Session γ ε) : ∃ happened : List (γ × Option ε),
    happened.map Prod.fst = callbacks ∧ (s.runAll oracle callbacks).log =
      s.log ++ happened.map fun x => .performed (.callback x.1) x.2 := by
  induction callbacks generalizing s with
  | nil => exact ⟨[], rfl, (List.append_nil _).symm⟩
  | cons callback callbacks ih =>
    obtain ⟨happened, rfl, hlog⟩ := ih (s.perform oracle (.callback callback))
    refine ⟨(callback, oracle s.log (.callback callback)) :: happened, rfl, ?_⟩
    exact hlog.trans (by simp)

section append
variable {log log' : List (Happening γ ε)}

@[simp] theorem ran_append : ran (log ++ log') = ran log ++ ran log' := List.filterMap_append
@[simp] theorem registrations_append :
    registrations (log ++ log') = registrations log ++ registrations log' := List.filterMap_append
@[simp] theorem rollbackRaised_append :
    rollbackRaised (log ++ log') = (rollbackRaised log).or (rollbackRaised log') :=
  List.findSome?_append

end append

/-- The happening is neither a commit nor a rollback nor a close. -/
def Happening.Quiet : Happening γ ε → Prop
  | .registered _ => True
  | .performed (.callback _) _ => True
  | .performed _ _ => False

/-- Quiet happenings decide nothing but which callbacks there are. -/
structure QuietLog (log : List (Happening γ ε)) : Prop where
  rollbackRaised : rollbackRaised log = none
  isCommit : log.filter Happening.isCommit = []
  isClose : log.countP Happening.isClose = 0
  commit : ∀ raised, .performed .commit raised ∉ log
  rollback : ∀ raised, .performed .rollback raised ∉ log

theorem Happening.Quiet.cases {x : Happening γ ε} (h : x.Quiet) :
    (∃ callback, x = .registered callback) ∨
      ∃ callback raised, x = .performed (.callback callback) raised := by
  rcases x with callback | ⟨_ | _ | _ | callback, raised⟩
  · exact .inl ⟨callback, rfl⟩
  · exact h.elim
  · exact h.elim
  · exact h.elim
  · exact .inr ⟨callback, raised, rfl⟩

theorem quietLog {log : List (Happening γ ε)} (h : ∀ x ∈ log, x.Quiet) : QuietLog log where
  rollbackRaised := by
    apply List.findSome?_eq_none_iff.mpr
    intro x hx
    rcases (h x hx).cases with ⟨callback, rfl⟩ | ⟨callback, raised, rfl⟩ <;> rfl
  isCommit := by
    apply List.filter_eq_nil_iff.mpr
    intro x hx
    rcases (h x hx).cases with ⟨callback, rfl⟩ | ⟨callback, raised, rfl⟩
    · exact Bool.false_ne_true
    · exact Bool.false_ne_true
  isClose := by
    apply List.countP_eq_zero.mpr
    intro x hx
    rcases (h x hx).cases with ⟨callback, rfl⟩ | ⟨callback, raised, rfl⟩
    · exact Bool.false_ne_true
    · exact Bool.false_ne_true
  commit raised hmem := h _ hmem
  rollback raised hmem := h _ hmem

theorem quiet_registered (callbacks : List γ) :
    QuietLog (callbacks.map .registered : List (Happening γ ε)) := by
  apply quietLog
  intro x hx
  obtain ⟨callback, -, rfl⟩ := List.mem_map.mp hx
  trivial

theorem quiet_callbacks (happened : List (γ × Option ε)) :
    QuietLog (happened.map fun x => .performed (.callback x.1) x.2 : List (Happening γ ε)) := by
  apply quietLog
  intro x hx
  obtain ⟨callback, -, rfl⟩ := List.mem_map.mp hx
  trivial

/-- The log holds nothing but the callbacks that are registered. -/
def OnlyRegistered (s : Session γ ε) : Prop := s.log = (s.callbacks.getD []).map .registered

variable (oracle) in
theorem onlyRegistered_run {block : SessionProg γ ε β α} (hblock : block.Only Call.IsRegister) :
    OnlyRegistered (block.run (Session.exec oracle) .fresh).2 := by
  have hkeeps : ∀ (c : Call γ) (s : Session γ ε), c.IsRegister → OnlyRegistered s →
      OnlyRegistered (Session.exec oracle c s).2 := by
    rintro c s ⟨callback⟩ hs
    rw [OnlyRegistered] at hs
    simp [OnlyRegistered, Session.exec, Session.register, hs]
  exact Prog.run_only_invariant _ hkeeps hblock rfl

theorem registrations_registered (callbacks : List γ) :
    registrations (callbacks.map .registered : List (Happening γ ε)) = callbacks := by
  induction callbacks with
  | nil => rfl
  | cons callback callbacks ih => exact congrArg (callback :: ·) ih

theorem ran_registered (callbacks : List γ) :
    ran (callbacks.map .registered : List (Happening γ ε)) = [] := by
  induction callbacks with
  | nil => rfl
  | cons callback callbacks ih => exact ih

theorem ran_callbacks (happened : List (γ × Option ε)) :
    ran (happened.map fun x => .performed (.callback x.1) x.2 : List (Happening γ ε)) =
      happened.map Prod.fst := by
  induction happened with
  | nil => rfl
  | cons x happened ih => exact congrArg (x.1 :: ·) ih

section tails
variable {outcome : Except (Raised ε β) α} {commit : Option ε} {registered : List γ}
  {result : Except (Raised ε β) (Option α)} {log tail : List (Happening γ ε)}

/-- What the block has registered decides nothing but which callbacks there are. -/
theorem WellManaged.of_tail (hquiet : QuietLog log) (hran : ran log = [])
    (h : WellManaged mode outcome commit registered tail result) :
    WellManaged mode outcome commit registered (log ++ tail) result where
  callbacks hcommits hcommit := by
    rw [ran_append, hran, List.nil_append]
    exact h.callbacks hcommits hcommit
  noCallbacks hcommits := by
    rw [ran_append, hran, List.nil_append]
    exact h.noCallbacks hcommits
  committed hcommits := by
    rw [List.filter_append, hquiet.isCommit, List.nil_append]
    exact h.committed hcommits
  notCommitted hcommits := by
    rw [List.filter_append, hquiet.isCommit, List.nil_append]
    exact h.notCommitted hcommits
  noRollback hmem raised := by
    have htail : .performed .commit none ∈ tail := by simpa [hquiet.commit none] using hmem
    simpa [hquiet.rollback raised] using h.noRollback htail raised
  closeOnce := by
    rw [List.countP_append, hquiet.isClose, Nat.zero_add]
    exact h.closeOnce
  result := by
    rw [h.result]
    unfold seenResult
    rw [rollbackRaised_append, hquiet.rollbackRaised, Option.none_or]

/-- A session that is only closed. -/
theorem wellManaged_close {raised : Option ε} (h : mode = .read ∨ ∃ e, outcome = .error e) :
    WellManaged mode outcome commit registered [.performed .close raised] (outcome.map some) := by
  have hnot : ¬ Commits mode outcome := by
    rintro ⟨hmode, a, rfl⟩
    rcases h with h | ⟨e, h⟩
    · exact hmode h
    · cases h
  refine ⟨fun hc => absurd hc hnot, fun _ => rfl, fun hc => absurd hc hnot, fun _ => rfl,
    by simp, rfl, ?_⟩
  rcases h with rfl | ⟨e, rfl⟩
  · cases outcome <;> cases commit <;> rfl
  · rfl

/-- A session that is rolled back and closed. -/
theorem wellManaged_rollback {raised raised' : Option ε} {e : ε} :
    WellManaged mode (.error (.exception e) : Except (Raised ε β) α) commit registered
      [.performed .rollback raised, .performed .close raised']
      (.error (.exception (raised.getD e))) where
  callbacks hc := by simp [Commits] at hc
  noCallbacks _ := rfl
  committed hc := by simp [Commits] at hc
  notCommitted _ := rfl
  noRollback hmem := by simp at hmem
  closeOnce := rfl
  result := by cases raised <;> rfl

/-- A session whose commit raises. -/
theorem wellManaged_failed {raised raised' : Option ε} {e : ε} {a : α} (hmode : mode ≠ .read) :
    WellManaged mode (.ok a : Except (Raised ε β) α) (some e) registered
      [.performed .commit (some e), .performed .rollback raised, .performed .close raised']
      (.error (.exception (raised.getD e))) where
  callbacks _ hc := by cases hc
  noCallbacks _ := rfl
  committed _ := rfl
  notCommitted hc := absurd ⟨hmode, a, rfl⟩ hc
  noRollback hmem := by simp at hmem
  closeOnce := rfl
  result := by cases raised <;> simp [seenResult, rollbackRaised, hmode]

/-- A session that is committed: then the callbacks are run. -/
theorem wellManaged_committed {raised : Option ε} {happened : List (γ × Option ε)} {a : α}
    (hmode : mode ≠ .read) : WellManaged mode (.ok a : Except (Raised ε β) α) none
      (happened.map Prod.fst) ([.performed .commit none] ++
        ((happened.map fun x => .performed (.callback x.1) x.2) ++ [.performed .close raised]))
      (.ok (some a)) := by
  have hquiet := quiet_callbacks happened
  have hcommits : Commits mode (.ok a : Except (Raised ε β) α) := ⟨hmode, a, rfl⟩
  refine ⟨fun _ _ => ?_, fun hc => absurd ⟨hcommits, rfl⟩ hc, fun _ => ?_,
    fun hc => absurd hcommits hc, fun _ raised' => ?_, ?_, ?_⟩
  · rw [ran_append, ran_append, ran_callbacks]
    exact List.append_nil _
  · rw [List.filter_append, List.filter_append, hquiet.isCommit]
    rfl
  · have hnone := hquiet.rollback raised'
    simp [hnone]
  · rw [List.countP_append, List.countP_append, hquiet.isClose]
    rfl
  · unfold seenResult
    rw [rollbackRaised_append, rollbackRaised_append, hquiet.rollbackRaised, if_pos hmode]
    rfl

end tails

variable (oracle) in
/-- Whether the rollback raises or not, it is tried once, and the session closed. -/
theorem rollBack_eq (e : ε) (s : Session γ ε) : ∃ raised,
    (rollBack oracle e s).1 = (oracle s.log .rollback).getD e ∧ (rollBack oracle e s).2.log =
      s.log ++ [.performed .rollback (oracle s.log .rollback), .performed .close raised] := by
  unfold rollBack
  cases hrollback : oracle s.log .rollback with
  | none => exact ⟨_, rfl, by simp [hrollback]; rfl⟩
  | some e' => exact ⟨_, rfl, by simp [hrollback]; rfl⟩

section ended
variable (hquiet : QuietLog s.log) (hran : ran s.log = [])
include hquiet hran

/-- What `managed_session` does with an exception of the block. -/
theorem abandon_wellManaged (commit : Option ε) (registered : List γ) (e : Raised ε β) :
    WellManaged mode (.error e : Except (Raised ε β) α) commit registered
      (abandon oracle mode e s).2.log (.error (abandon oracle mode e s).1) := by
  cases e with
  | base b => exact (wellManaged_close (.inr ⟨_, rfl⟩)).of_tail hquiet hran
  | exception e =>
    by_cases hmode : mode ≠ .read
    · obtain ⟨raised, hraised, hlog⟩ := rollBack_eq oracle e s
      simp only [abandon, if_pos hmode, Prod.map, hraised, hlog, id]
      exact wellManaged_rollback.of_tail hquiet hran
    · simp only [abandon, if_neg hmode]
      exact (wellManaged_close (.inr ⟨_, rfl⟩)).of_tail hquiet hran

/-- What `managed_session` does where the block ends normally. -/
theorem settle_wellManaged (a : α) : WellManaged mode (.ok a : Except (Raised ε β) α)
    (oracle s.log .commit) (s.callbacks.getD []) (settle oracle mode s).2.log
    ((ending (settle oracle mode s).1).map fun _ => some a) := by
  by_cases hmode : mode ≠ .read
  · cases hcommit : oracle s.log .commit with
    | none =>
      simp only [settle, if_pos hmode, hcommit]
      obtain ⟨happened, hhappened, hlog⟩ := runAll_log oracle (s.callbacks.getD [])
        (s.perform oracle .commit).popCallbacks
      rw [← hhappened] at hlog ⊢
      rw [Session.perform_log, hlog, Session.popCallbacks_log, Session.perform_log, hcommit,
        List.append_assoc, List.append_assoc]
      exact (wellManaged_committed hmode).of_tail hquiet hran
    | some e =>
      obtain ⟨raised, hraised, hlog⟩ := rollBack_eq oracle e (s.perform oracle .commit)
      simp only [settle, if_pos hmode, hcommit, Prod.map, hraised, hlog, id]
      rw [Session.perform_log, hcommit, List.append_assoc]
      exact (wellManaged_failed hmode).of_tail hquiet hran
  · simp only [settle, if_neg hmode]
    exact (wellManaged_close (.inl (not_not.mp hmode))).of_tail hquiet hran

end ended

/-- Every session is well managed whose block leaves commit and rollback alone, whatever the commit
after the block does. -/
theorem session_wellManaged {block : SessionProg γ ε β α} (hblock : block.Only Call.IsRegister) :
    WellManaged mode (block.run (Session.exec oracle) .fresh).1
      (oracle (block.run (Session.exec oracle) .fresh).2.log .commit)
      (registrations (block.run (Session.exec oracle) .fresh).2.log)
      ((withSession misuse mode block).run (Session.exec oracle) .fresh).2.log
      ((withSession misuse mode block).run (Session.exec oracle) .fresh).1 := by
  have honly := onlyRegistered_run oracle hblock
  rw [run_withSession]
  cases hrun : block.run (Session.exec oracle) .fresh with
  | mk outcome s =>
    rw [hrun] at honly
    have hlog : s.log = (s.callbacks.getD []).map .registered := honly
    have hquiet : QuietLog s.log := hlog ▸ quiet_registered (s.callbacks.getD [])
    have hran : ran s.log = [] := hlog ▸ ran_registered (s.callbacks.getD [])
    have hregistered : registrations s.log = s.callbacks.getD [] :=
      hlog ▸ registrations_registered (s.callbacks.getD [])
    rw [hregistered]
    cases outcome with
    | ok a => exact settle_wellManaged hquiet hran a
    | error e => exact abandon_wellManaged hquiet hran _ _ e

/-- A block that registers two callbacks. -/
def registerTwo : SessionProg ℕ Unit Unit Unit :=
  .call (.register 1) fun _ => .call (.register 2) fun _ => .ret ()

/-- The first callback raises, and whatever else is tried succeeds. -/
def firstRaises : Oracle ℕ Unit
  | _, .callback 1 => some ()
  | _, _ => none

def plainMisuse : Gen.Misuse (Raised Unit Unit) := ⟨.exception (), .exception ()⟩

/-- The second callback is run although the first one raises. -/
theorem session_wellManaged_two : WellManaged .write
    (registerTwo.run (Session.exec firstRaises) .fresh).1
    (firstRaises (registerTwo.run (Session.exec firstRaises) .fresh).2.log .commit)
    (registrations (registerTwo.run (Session.exec firstRaises) .fresh).2.log)
    ((withSession plainMisuse .write registerTwo).run (Session.exec firstRaises) .fresh).2.log
    ((withSession plainMisuse .write registerTwo).run (Session.exec firstRaises) .fresh).1 ∧
    ran ((withSession plainMisuse .write registerTwo).run
      (Session.exec firstRaises) .fresh).2.log = [1, 2] :=
  ⟨session_wellManaged ⟨.intro 1, fun _ => ⟨.intro 2, fun _ => trivial⟩⟩, rfl⟩

end BaseWebService.Database
