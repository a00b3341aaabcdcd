import BaseWebService.Library.Run

/-!
# Read/write routing

A session in mode `auto` picks an engine for every statement. It looks at the Python class of the
statement and at whether it is flushing, and stays with the write engine once it has picked it.
-/

namespace BaseWebService.Database

open Library

inductive Engine where
  | read
  | write
deriving DecidableEq, Repr

/-- The kinds of statement that modify rows. -/
inductive Dml where
  | insert
  | update
  | delete

/-- A modification, a query with or without `FOR UPDATE`, or either of them behind a common table
expression. -/
inductive Statement where
  | dml (kind : Dml)
  | select (forUpdate : Bool)
  | withCte (cte body : Statement)

/-- Whether a statement modifies or locks rows. -/
def Statement.writes : Statement → Bool
  | .dml _ => true
  | .select forUpdate => forUpdate
  | .withCte cte body => cte.writes || body.writes

/-- Whether its construct is an `Insert`, an `Update` or a `Delete`. Adding a common table
expression to a construct leaves its class as it is. -/
def Statement.isDml : Statement → Bool
  | .dml _ => true
  | .select _ => false
  | .withCte _ body => body.isDml

/-- A statement built as a Core construct, or written as text. -/
inductive Clause where
  | construct (statement : Statement)
  | text (statement : Statement)

def Clause.writes : Clause → Bool
  | .construct statement => statement.writes
  | .text statement => statement.writes

/-- `isinstance(clause, (Insert, Update, Delete))`. -/
def Clause.isDml : Clause → Bool
  | .construct statement => statement.isDml
  | .text _ => false

/-- What is issued on a session: the changes that a flush writes for one mapper, or a clause. A
flush with nothing to write asks for no engine. -/
inductive Operation where
  | flush
  | execute (clause : Clause)

def Operation.writes : Operation → Bool
  | .flush => true
  | .execute clause => clause.writes

/-- What `get_bind` reads of a session: `_flushing`, and the entry of `info`. -/
structure RoutingSession where
  flushing : Bool
  pinnedToWrite : Bool

namespace RoutingSession

def fresh : RoutingSession := ⟨false, false⟩

def getBind (s : RoutingSession) (clause : Option Clause) : Engine × RoutingSession :=
  if s.pinnedToWrite then (.write, s)
  else if s.flushing || clause.any Clause.isDml then (.write, { s with pinnedToWrite := true })
  else (.read, s)

/-- A flush asks without a clause. -/
def issue (s : RoutingSession) : Operation → Engine × RoutingSession
  | .flush =>
    let (engine, s') := { s with flushing := true }.getBind none
    (engine, { s' with flushing := false })
  | .execute clause => s.getBind (some clause)

/-- The session on which some operations were issued. -/
def after (ops : List Operation) : RoutingSession := ops.foldl (fun s op => (s.issue op).2) fresh

end RoutingSession

/-- The engine that an operation is bound to, given the operations before it. -/
def engineFor (before : List Operation) (op : Operation) : Engine :=
  ((RoutingSession.after before).issue op).1

/-- The operations from the first one on that modifies or locks rows are bound to the write engine,
and those before it to the read engine. -/
def ReadYourWrites (ops : List Operation) : Prop :=
  Throughout (fun before op =>
    engineFor before op = if (before ++ [op]).any Operation.writes then .write else .read) ops

/-- Whether `get_bind` sees that an operation writes. -/
def Operation.recognised : Operation → Bool
  | .flush => true
  | .execute clause => clause.isDml

theorem Statement.writes_of_isDml {s : Statement} (h : s.isDml) : s.writes := by
  induction s with
  | dml kind => rfl
  | select forUpdate => simp [isDml] at h
  | withCte cte body _ ih =>
    have hbody : body.writes := ih h
    simp [writes, hbody]

theorem Operation.writes_of_recognised {op : Operation} (h : op.recognised) : op.writes := by
  rcases op with _ | (statement | statement)
  · rfl
  · exact Statement.writes_of_isDml h
  · simp [recognised, Clause.isDml] at h

/-- One operation: the engine it gets, and that the session is pinned exactly with the write
engine. -/
theorem RoutingSession.issue_eq (s : RoutingSession) (hidle : s.flushing = false)
    (op : Operation) :
    s.issue op = (if s.pinnedToWrite || op.recognised then .write else .read,
      ⟨false, s.pinnedToWrite || op.recognised⟩) := by
  obtain ⟨flushing, pinned⟩ := s
  obtain rfl : flushing = false := hidle
  cases pinned with
  | true => cases op <;> simp [issue, getBind]
  | false =>
    cases op with
    | flush => simp [issue, getBind, Operation.recognised]
    | execute clause =>
      by_cases hclause : clause.isDml <;> simp [issue, getBind, Operation.recognised, hclause]

theorem RoutingSession.after_snoc (ops : List Operation) (op : Operation) :
    after (ops ++ [op]) = ((after ops).issue op).2 := by simp [after]

/-- A session is pinned from the first recognised operation on. -/
theorem RoutingSession.after_eq (ops : List Operation) :
    after ops = ⟨false, ops.any Operation.recognised⟩ := by
  induction ops using List.reverseRecOn with
  | nil => rfl
  | append_singleton ops op ih =>
    rw [after_snoc, ih, issue_eq _ rfl]
    simp

theorem engineFor_eq (before : List Operation) (op : Operation) :
    engineFor before op =
      if (before ++ [op]).any Operation.recognised then .write else .read := by
  unfold engineFor
  rw [RoutingSession.after_eq, RoutingSession.issue_eq _ rfl]
  simp

theorem engineFor_eq_write_iff {before : List Operation} {op : Operation} :
    engineFor before op = .write ↔ ∃ w ∈ before ++ [op], w.recognised := by
  rw [engineFor_eq, ← List.any_eq_true]
  split
  · simp_all
  · simp_all

/-- Reading is never the wrong engine's work: before a write nothing is bound to the write
engine. -/
theorem engineFor_eq_read {before : List Operation} {op : Operation}
    (h : (before ++ [op]).any Operation.writes = false) : engineFor before op = .read := by
  cases hengine : engineFor before op with
  | read => rfl
  | write =>
    obtain ⟨w, hw, hrecognised⟩ := engineFor_eq_write_iff.mp hengine
    have hnot := List.any_eq_false.mp h w hw
    exact absurd (Operation.writes_of_recognised hrecognised) hnot

/-- A session routes its operations right exactly if the first one that modifies or locks rows is
a flush or an `Insert`, `Update` or `Delete` construct. -/
theorem readYourWrites_iff (ops : List Operation) :
    ReadYourWrites ops ↔ ∀ op ∈ ops.find? Operation.writes, op.recognised := by
  constructor
  · intro hops op hfind
    obtain ⟨hop, before, future, rfl, hbefore⟩ := List.find?_eq_some_iff_append.mp hfind
    have hengine : engineFor before op = .write := by
      simpa [hop] using hops before op future rfl
    obtain ⟨w, hw, hrecognised⟩ := engineFor_eq_write_iff.mp hengine
    -- whatever pinned the session writes, and nothing before the first write does
    rcases List.mem_append.mp hw with hw | hw
    · have hnot := hbefore w hw
      simp [Operation.writes_of_recognised hrecognised] at hnot
    · rwa [List.mem_singleton.mp hw] at hrecognised
  · rintro hfirst before op future rfl
    split
    · rename_i hwrites
      obtain ⟨w, hw⟩ : ∃ w, (before ++ [op]).find? Operation.writes = some w := by
        rw [← Option.isSome_iff_exists, List.find?_isSome]
        simpa using hwrites
      apply engineFor_eq_write_iff.mpr
      refine ⟨w, List.mem_of_find?_eq_some hw, hfirst w ?_⟩
      rw [← List.singleton_append, ← List.append_assoc, List.find?_append, hw]
      rfl
    · rename_i hreads
      exact engineFor_eq_read (Bool.eq_false_iff.mpr hreads)

/-- A lock that is taken by a query goes to the read engine. -/
theorem locking_query_misrouted :
    ¬ReadYourWrites [.execute (.construct (.select true))] := by
  intro h
  have hengine := h [] _ [] rfl
  exact absurd hengine (by decide)

end BaseWebService.Database
