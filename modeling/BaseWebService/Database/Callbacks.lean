import Mathlib.Data.List.Induction
import Mathlib.Data.List.Perm.Basic
import BaseWebService.Database.Lifecycle

/-!
# Callbacks and transactions

The callbacks of a session are kept in one list until the session ends, whatever transactions its
block has committed or rolled back in between. The `ledger` of a log says in which of them each
callback was registered.
-/

namespace BaseWebService.Database

open Library

variable {γ ε β α : Type} {misuse : Gen.Misuse (Raised ε β)} {mode : SessionMode}
  {oracle : Oracle γ ε} {s : Session γ ε} {log : List (Happening γ ε)}

/-- The callbacks registered in transactions that were committed, in transactions that were not, and
in the one that is open. -/
structure Ledger (γ : Type) where
  committed : List γ
  lost : List γ
  pending : List γ

namespace Ledger

/-- A commit that raises has committed nothing. -/
def step (l : Ledger γ) : Happening γ ε → Ledger γ
  | .registered callback => { l with pending := l.pending ++ [callback] }
  | .performed .commit none => ⟨l.committed ++ l.pending, l.lost, []⟩
  | .performed .commit (some _) => ⟨l.committed, l.lost ++ l.pending, []⟩
  | .performed .rollback _ => ⟨l.committed, l.lost ++ l.pending, []⟩
  | .performed .close _ => l
  | .performed (.callback _) _ => l

def all (l : Ledger γ) : List γ := l.committed ++ l.lost ++ l.pending

end Ledger

def ledger (log : List (Happening γ ε)) : Ledger γ := log.foldl Ledger.step ⟨[], [], []⟩

theorem ledger_append (log log' : List (Happening γ ε)) :
    ledger (log ++ log') = log'.foldl Ledger.step (ledger log) := List.foldl_append

theorem ledger_snoc (log : List (Happening γ ε)) (x : Happening γ ε) :
    ledger (log ++ [x]) = (ledger log).step x := ledger_append log [x]

theorem Ledger.all_step (l : Ledger γ) (x : Happening γ ε) :
    (l.step x).all.Perm (l.all ++ registrations [x]) := by
  rcases x with callback | ⟨_ | _ | _ | _, _ | _⟩
  · simp [Ledger.step, Ledger.all, registrations]
  · have hcomm : (l.pending ++ l.lost).Perm (l.lost ++ l.pending) := List.perm_append_comm
    simpa [Ledger.step, Ledger.all, registrations] using hcomm.append_left l.committed
  all_goals simp [Ledger.step, Ledger.all, registrations]

/-- Every registration is in the ledger once. -/
theorem all_ledger (log : List (Happening γ ε)) : (ledger log).all.Perm (registrations log) := by
  induction log using List.reverseRecOn with
  | nil => exact .nil
  | append_singleton log x ih =>
    rw [ledger_snoc, registrations_append]
    exact ((ledger log).all_step x).trans (ih.append_right _)

/-- Running callbacks changes no transaction. -/
theorem ledger_callbacks (happened : List (γ × Option ε)) :
    ledger (log ++ happened.map fun x => .performed (.callback x.1) x.2) = ledger log := by
  induction happened using List.reverseRecOn with
  | nil => simp
  | append_singleton happened x ih =>
    rw [List.map_append, ← List.append_assoc]
    exact (ledger_snoc ..).trans ih

/-- The exit of a block fits its transactions: where the last commit succeeds no other transaction
with callbacks was lost, and elsewhere none was committed. -/
def ExitFits (oracle : Oracle γ ε) (outcome : Except (Raised ε β) α) (s : Session γ ε) : Prop :=
  match outcome, oracle s.log .commit with
  | .ok _, none => (ledger s.log).lost = []
  | _, _ => (ledger s.log).committed = []

/-- The session knows all callbacks that its block has registered, and has run none. -/
structure InBlock (s : Session γ ε) : Prop where
  registrations : registrations s.log = s.callbacks.getD []
  ran : ran s.log = []

variable (oracle) in
theorem inBlock_run {block : SessionProg γ ε β α} (hblock : block.Only Call.IsBlock) :
    InBlock (block.run (Session.exec oracle) .fresh).2 := by
  have hkeeps : ∀ (c : Call γ) (s : Session γ ε), c.IsBlock → InBlock s →
      InBlock (Session.exec oracle c s).2 := by
    rintro c s hc ⟨hregistrations, hran⟩
    cases hc with
    | register callback =>
      refine ⟨registrations_append.trans ?_, ran_append.trans ?_⟩
      · exact congrArg (· ++ [callback]) hregistrations
      · rw [hran]
        rfl
    | commit | rollback =>
      refine ⟨registrations_append.trans ?_, ran_append.trans ?_⟩
      · rw [hregistrations]
        exact List.append_nil _
      · rw [hran]
        rfl
  exact Prog.run_only_invariant _ hkeeps hblock ⟨rfl, rfl⟩

variable (oracle) in
/-- A session that is rolled back commits nothing and runs nothing. -/
theorem rollBack_keeps (e : ε) (s : Session γ ε) :
    (ledger (rollBack oracle e s).2.log).committed = (ledger s.log).committed ∧
      ran (rollBack oracle e s).2.log = ran s.log := by
  obtain ⟨raised, -, hlog⟩ := rollBack_eq oracle e s
  rw [hlog, ran_append, ledger_append]
  exact ⟨rfl, List.append_nil _⟩

variable (oracle) in
/-- Nor does a session that is closed at once. -/
theorem close_keeps (s : Session γ ε) :
    (ledger (s.perform oracle .close).log).committed = (ledger s.log).committed ∧
      ran (s.perform oracle .close).log = ran s.log := by
  rw [Session.perform_log, ran_append, ledger_append]
  exact ⟨rfl, List.append_nil _⟩

theorem perm_iff_lost {l : Ledger γ} {callbacks : List γ} (hall : l.all.Perm callbacks) :
    callbacks.Perm (l.committed ++ l.pending) ↔ l.lost = [] := by
  constructor
  · intro hperm
    have hlength := (hall.trans hperm).length_eq
    simp only [Ledger.all, List.length_append] at hlength
    exact List.length_eq_zero_iff.mp (by omega)
  · intro hlost
    simpa [Ledger.all, hlost] using hall.symm

section ended
variable (hmode : mode ≠ .read) (hin : InBlock s)
include hmode hin

/-- Where the block raises, nothing is run. -/
theorem abandon_follows_iff (e : Raised ε β) :
    (ran (abandon oracle mode e s).2.log).Perm (ledger (abandon oracle mode e s).2.log).committed ↔
      (ledger s.log).committed = [] := by
  have hkeeps : (ledger (abandon oracle mode e s).2.log).committed = (ledger s.log).committed ∧
      ran (abandon oracle mode e s).2.log = ran s.log := by
    cases e with
    | base b => exact close_keeps oracle s
    | exception e =>
      simp only [abandon, if_pos hmode]
      exact rollBack_keeps oracle e s
  rw [hkeeps.1, hkeeps.2, hin.ran, List.nil_perm]

/-- Where the block ends normally, everything is run if the last commit succeeds. -/
theorem settle_follows_iff (a : α) :
    (ran (settle oracle mode s).2.log).Perm (ledger (settle oracle mode s).2.log).committed ↔
      ExitFits oracle (.ok a : Except (Raised ε β) α) s := by
  unfold ExitFits
  cases hcommit : oracle s.log .commit with
  | none =>
    simp only [settle, if_pos hmode, hcommit]
    obtain ⟨happened, hhappened, hlog⟩ := runAll_log oracle (s.callbacks.getD [])
      (s.perform oracle .commit).popCallbacks
    rw [Session.popCallbacks_log, Session.perform_log, hcommit] at hlog
    have hran : ran ((s.perform oracle .commit).popCallbacks.runAll oracle
        (s.callbacks.getD [])).log = registrations s.log := by
      rw [hlog, ran_append, ran_append, hin.ran, ran_callbacks, hhappened, hin.registrations]
      rfl
    have hledger : ledger ((s.perform oracle .commit).popCallbacks.runAll oracle
        (s.callbacks.getD [])).log =
          (ledger s.log).step (.performed .commit (none : Option ε)) := by
      rw [hlog, ledger_callbacks, ledger_snoc]
    have hclose := close_keeps oracle ((s.perform oracle .commit).popCallbacks.runAll
      oracle (s.callbacks.getD []))
    rw [hclose.1, hclose.2, hran, hledger]
    exact perm_iff_lost (all_ledger s.log)
  | some e =>
    simp only [settle, if_pos hmode, hcommit]
    have hkeeps := rollBack_keeps oracle e (s.perform oracle .commit)
    rw [Session.perform_log, hcommit, ledger_snoc, ran_append, hin.ran] at hkeeps
    simp only [Prod.map, id]
    rw [hkeeps.1, hkeeps.2]
    exact List.nil_perm

end ended

/-- The callbacks that are run are those whose transactions were committed, if and only if the exit
of the block fits its transactions. -/
theorem callbacks_follow_iff (hmode : mode ≠ .read) {block : SessionProg γ ε β α}
    (hblock : block.Only Call.IsBlock) :
    (ran ((withSession misuse mode block).run (Session.exec oracle) .fresh).2.log).Perm
      (ledger ((withSession misuse mode block).run (Session.exec oracle) .fresh).2.log).committed ↔
    ExitFits oracle (block.run (Session.exec oracle) .fresh).1
      (block.run (Session.exec oracle) .fresh).2 := by
  have hin := inBlock_run oracle hblock
  rw [run_withSession]
  cases hrun : block.run (Session.exec oracle) .fresh with
  | mk outcome s =>
    rw [hrun] at hin
    cases outcome with
    | ok a => exact settle_follows_iff hmode hin a
    | error e => exact abandon_follows_iff hmode hin e

/-- A block that registers a callback and then gives up what it has done so far. -/
def registerThenRollback : SessionProg ℕ Unit Unit Unit :=
  .call (.register 1) fun _ => .call (.perform .rollback) fun _ => .ret ()

/-- Nothing raises. -/
def allSucceeds : Oracle ℕ Unit := fun _ _ => none

/-- The callback of the transaction that was rolled back is run. -/
theorem rolled_back_callback_runs :
    let log := ((withSession plainMisuse .auto registerThenRollback).run
      (Session.exec allSucceeds) .fresh).2.log
    ran log = [1] ∧ (ledger log).lost = [1] ∧ ¬ (ran log).Perm (ledger log).committed := by
  intro log
  exact ⟨rfl, rfl, fun hperm => absurd hperm.length_eq (by decide)⟩

/-- A block that commits between its callbacks, and rolls back where none is pending. -/
def commitBetween : SessionProg ℕ Unit Unit Unit :=
  .call (.register 1) fun _ => .call (.perform .commit) fun _ =>
    .call (.perform .rollback) fun _ => .call (.register 2) fun _ => .ret ()

/-- Callbacks follow their transactions, also those that end before the block does. -/
theorem callbacks_follow_iff_between :
    let log := ((withSession plainMisuse .auto commitBetween).run
      (Session.exec firstRaises) .fresh).2.log
    ran log = [1, 2] ∧ (ran log).Perm (ledger log).committed := by
  intro log
  have hblock : commitBetween.Only Call.IsBlock :=
    ⟨.register 1, fun _ => ⟨.commit, fun _ => ⟨.rollback, fun _ => ⟨.register 2, fun _ =>
      trivial⟩⟩⟩⟩
  exact ⟨rfl, (callbacks_follow_iff (by decide) hblock).mpr rfl⟩

end BaseWebService.Database
