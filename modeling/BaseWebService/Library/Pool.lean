import Mathlib.Data.List.Nodup
import Mathlib.Data.List.Perm.Subperm
import Mathlib.Logic.Function.Basic
import BaseWebService.Library.Prog
import BaseWebService.Library.Run

/-!
# Concurrent runs of one program

Any number of processes run the same program over one store. Each step is one command of
one process, the start of a process, or a step the store takes by itself, so every
interleaving of the commands is a run.

Invariants are stated over program points. A `Flow` is a flowchart: it says what a point
does and where each reply leads. `Follows` says that a program is what the flowchart does from
a point, and `Pool.invariant` is the rule that carries a shared and a per-process invariant
through every run.
-/

namespace BaseWebService.Library

variable {C : Type} {R : C → Type} {ε α σ P : Type}

/-- What a program point does. -/
inductive Node (C : Type) (R : C → Type) (ε α P : Type) where
  | ret (a : α)
  | raise (e : ε)
  | call (c : C) (next : R c → P)

abbrev Flow (C : Type) (R : C → Type) (ε α P : Type) := P → Node C R ε α P

/-- The program does what the flowchart does from the point. -/
def Follows (flow : Flow C R ε α P) : Prog C R ε α → P → Prop
  | .ret a, p => flow p = .ret a
  | .raise e, p => flow p = .raise e
  | .call c k, p => ∃ next, flow p = .call c next ∧ ∀ r, Follows flow (k r) (next r)

theorem Follows.eq_raise {flow : Flow C R ε α P} {prog : Prog C R ε α} {p : P} {e : ε}
    (h : Follows flow prog p) (hp : flow p = .raise e) : prog = .raise e := by
  cases prog with
  | ret => exact absurd (h.symm.trans hp) (by simp)
  | raise => exact congrArg Prog.raise (Node.raise.inj (h.symm.trans hp))
  | call =>
    obtain ⟨next, hflow, -⟩ := h
    exact absurd (hflow.symm.trans hp) (by simp)

/-- A run of the flowchart from a point, with no one else acting. -/
inductive Runs (flow : Flow C R ε α P) (exec : (c : C) → σ → R c × σ) :
    P → σ → Except ε α → σ → Prop where
  | ret {p : P} {s : σ} {a : α} : flow p = .ret a → Runs flow exec p s (.ok a) s
  | raise {p : P} {s : σ} {e : ε} : flow p = .raise e → Runs flow exec p s (.error e) s
  | call {p : P} {s t : σ} {c : C} {next : R c → P} {r : Except ε α} : flow p = .call c next →
      Runs flow exec (next (exec c s).1) (exec c s).2 r t → Runs flow exec p s r t

/-- Run alone, a program does what its flowchart does. -/
theorem Follows.run {flow : Flow C R ε α P} {exec : (c : C) → σ → R c × σ} {prog : Prog C R ε α}
    {p : P} {s t : σ} {r : Except ε α} (h : Follows flow prog p) (hruns : Runs flow exec p s r t) :
    prog.run exec s = (r, t) := by
  induction hruns generalizing prog with
  | ret hp =>
    cases prog with
    | ret a =>
      obtain rfl := Node.ret.inj (h.symm.trans hp)
      rfl
    | raise e => exact absurd (h.symm.trans hp) (by simp)
    | call c k =>
      obtain ⟨next, hflow, -⟩ := h
      exact absurd (hflow.symm.trans hp) (by simp)
  | raise hp =>
    cases prog with
    | raise e =>
      obtain rfl := Node.raise.inj (h.symm.trans hp)
      rfl
    | ret a => exact absurd (h.symm.trans hp) (by simp)
    | call c k =>
      obtain ⟨next, hflow, -⟩ := h
      exact absurd (hflow.symm.trans hp) (by simp)
  | call hp _ ih =>
    cases prog with
    | ret a => exact absurd (h.symm.trans hp) (by simp)
    | raise e => exact absurd (h.symm.trans hp) (by simp)
    | call c k =>
      obtain ⟨next, hflow, hnext⟩ := h
      obtain ⟨rfl, hnext'⟩ := Node.call.inj (hflow.symm.trans hp)
      obtain rfl := eq_of_heq hnext'
      exact ih (hnext _)

/-- The store and the processes; `none` is a process that has not started. -/
structure Pool (C : Type) (R : C → Type) (ε α σ : Type) where
  store : σ
  procs : ℕ → Option (Prog C R ε α)

namespace Pool

inductive Label (C : Type) (R : C → Type) where
  | start (i : ℕ)
  | issue (i : ℕ) (c : C) (reply : R c)
  | env

/-- The process that takes the step. -/
def Label.proc : Label C R → Option ℕ
  | .start i => some i
  | .issue i _ _ => some i
  | .env => none

variable (exec : (c : C) → σ → R c × σ) (body : Prog C R ε α) (env : σ → σ → Prop)

inductive Step : Pool C R ε α σ → Label C R → Pool C R ε α σ → Prop where
  | start {p : Pool C R ε α σ} {i : ℕ} : p.procs i = none →
      Step p (.start i) { p with procs := Function.update p.procs i (some body) }
  | issue {p : Pool C R ε α σ} {i : ℕ} {c : C} {k : R c → Prog C R ε α} :
      p.procs i = some (.call c k) →
      Step p (.issue i c (exec c p.store).1)
        ⟨(exec c p.store).2, Function.update p.procs i (some (k (exec c p.store).1))⟩
  | env {p : Pool C R ε α σ} {t : σ} : env p.store t → Step p .env { p with store := t }

variable {exec body env} in
/-- A command whose effect is known. -/
theorem Step.issue_of {p : Pool C R ε α σ} {t : σ} {i : ℕ} {c : C} {r : R c}
    {k : R c → Prog C R ε α} (hi : p.procs i = some (.call c k)) (hexec : exec c p.store = (r, t)) :
    Step exec body env p (.issue i c r) ⟨t, Function.update p.procs i (some (k r))⟩ := by
  have hstep : Step exec body env p _ _ := .issue hi
  rwa [hexec] at hstep

variable {exec body env} in
/-- The next command of the process that has just taken a step. -/
theorem Step.issue_update {s t : σ} {procs : ℕ → Option (Prog C R ε α)} {i : ℕ} {c : C} {r : R c}
    {k : R c → Prog C R ε α} (hexec : exec c s = (r, t)) :
    Step exec body env ⟨s, Function.update procs i (some (.call c k))⟩ (.issue i c r)
      ⟨t, Function.update procs i (some (k r))⟩ := by
  have hstep : Step exec body env ⟨s, Function.update procs i (some (.call c k))⟩ _ _ :=
    Step.issue_of (Function.update_self ..) hexec
  rwa [Function.update_idem] at hstep

/-- A pool in which nothing has started. -/
def fresh (s : σ) : Pool C R ε α σ := ⟨s, fun _ => none⟩

/-- What has happened to the store, oldest first. -/
abbrev History (C : Type) (R : C → Type) (σ : Type) := List (Transition σ (Label C R))

def history (tr : List (Transition (Pool C R ε α σ) (Label C R))) : History C R σ :=
  tr.map fun x => ⟨x.before.store, x.label, x.after.store⟩

@[simp] theorem history_append (tr tr' : List (Transition (Pool C R ε α σ) (Label C R))) :
    history (tr ++ tr') = history tr ++ history tr' := List.map_append

@[simp] theorem history_cons (x : Transition (Pool C R ε α σ) (Label C R))
    (tr : List (Transition (Pool C R ε α σ) (Label C R))) :
    history (x :: tr) = ⟨x.before.store, x.label, x.after.store⟩ :: history tr := rfl

@[simp] theorem history_nil : history ([] : List (Transition (Pool C R ε α σ) (Label C R))) = [] :=
  rfl

/-- The processes that have started, oldest first. -/
def started (h : History C R σ) : List ℕ :=
  h.filterMap fun x => match x.label with
    | .start i => some i
    | _ => none

theorem started_snoc (h : History C R σ) (x : Transition σ (Label C R)) :
    started (h ++ [x]) = match x.label with
      | .start i => started h ++ [i]
      | _ => started h := by
  obtain ⟨s, l, t⟩ := x
  cases l <;> simp [started]

@[simp] theorem started_append (h h' : History C R σ) :
    started (h ++ h') = started h ++ started h' := List.filterMap_append

@[simp] theorem started_cons_start (s t : σ) (i : ℕ) (h : History C R σ) :
    started (⟨s, .start i, t⟩ :: h) = i :: started h := rfl

theorem mem_started_append {h : History C R σ} {i : ℕ} (hi : i ∈ started h) (h' : History C R σ) :
    i ∈ started (h ++ h') := by
  rw [started_append]
  exact List.mem_append_left _ hi

theorem mem_started {h : History C R σ} {i : ℕ} (hi : i ∈ started h) :
    ∃ x ∈ h, x.label.proc = some i := by
  obtain ⟨⟨s, l, t⟩, hx, heq⟩ := List.mem_filterMap.mp hi
  refine ⟨_, hx, ?_⟩
  cases l with
  | start j => exact heq
  | issue | env => cases heq

/-- The processes that have taken a step marked by `f`, oldest first. -/
def actors (f : Label C R → Option ℕ) (h : History C R σ) : List ℕ :=
  h.filterMap fun x => f x.label

theorem actors_snoc (f : Label C R → Option ℕ) (h : History C R σ)
    (x : Transition σ (Label C R)) : actors f (h ++ [x]) = actors f h ++ (f x.label).toList := by
  simp only [actors, List.filterMap_append, List.filterMap_cons, List.filterMap_nil]
  cases f x.label <;> rfl

theorem actors_of_none {f : Label C R → Option ℕ} {x : Transition σ (Label C R)}
    (hf : f x.label = none) (h : History C R σ) : actors f (h ++ [x]) = actors f h := by
  rw [actors_snoc, hf]
  exact List.append_nil _

/-- No process starts twice or takes two marked steps, or one before its start. -/
structure Once (f : Label C R → Option ℕ) (h : History C R σ) : Prop where
  started : (started h).Nodup
  acted : (actors f h).Nodup
  sub : actors f h ⊆ Pool.started h

namespace Once
variable {f : Label C R → Option ℕ} {h : History C R σ} {x : Transition σ (Label C R)} {i : ℕ}

theorem nil : Once f ([] : History C R σ) := by
  constructor <;> simp [Pool.started, actors]

theorem start (hh : Once f h) (hx : x.label = .start i) (hf : f x.label = none)
    (hnone : ∀ y ∈ h, y.label.proc ≠ some i) : Once f (h ++ [x]) := by
  have hstart : Pool.started (h ++ [x]) = Pool.started h ++ [i] := by rw [started_snoc, hx]
  have hacted : actors f (h ++ [x]) = actors f h := actors_of_none hf h
  have hnew : i ∉ Pool.started h := fun hmem =>
    let ⟨y, hy, hproc⟩ := mem_started hmem
    hnone y hy hproc
  constructor
  · rw [hstart]
    exact hh.started.append (by simp) (by simpa using hnew)
  · rw [hacted]
    exact hh.acted
  · rw [hstart, hacted]
    exact List.subset_append_of_subset_left _ hh.sub

/-- A step that neither starts a process nor is marked. -/
theorem quiet (hh : Once f h) (hx : Pool.started (h ++ [x]) = Pool.started h)
    (hf : f x.label = none) : Once f (h ++ [x]) := by
  have hacted : actors f (h ++ [x]) = actors f h := actors_of_none hf h
  constructor
  · rw [hx]
    exact hh.started
  · rw [hacted]
    exact hh.acted
  · rw [hx, hacted]
    exact hh.sub

theorem act (hh : Once f h) (hx : Pool.started (h ++ [x]) = Pool.started h)
    (hf : f x.label = some i) (hi : i ∈ Pool.started h) (hnew : i ∉ actors f h) :
    Once f (h ++ [x]) := by
  have hacted : actors f (h ++ [x]) = actors f h ++ [i] := by
    rw [actors_snoc, hf]
    rfl
  constructor
  · rw [hx]
    exact hh.started
  · rw [hacted]
    exact hh.acted.append (by simp) (by simpa using hnew)
  · rw [hx, hacted]
    exact List.append_subset.mpr ⟨hh.sub, by simpa using hi⟩

theorem length_le (hh : Once f h) : (actors f h).length ≤ (Pool.started h).length :=
  (List.subperm_of_subset hh.acted hh.sub).length_le

/-- Once every process has acted, there are as many actors as processes. -/
theorem length_eq (hh : Once f h) (hall : Pool.started h ⊆ actors f h) :
    (actors f h).length = (Pool.started h).length :=
  Nat.le_antisymm hh.length_le (List.subperm_of_subset hh.started hall).length_le

end Once

/-- What a process has not done, it has not done after the step of another. -/
theorem not_mem_actors_snoc {f : Label C R → Option ℕ} (hf : ∀ l i, f l = some i → l.proc = some i)
    {h : History C R σ} {x : Transition σ (Label C R)} {i : ℕ} (hi : i ∉ actors f h)
    (hx : x.label.proc ≠ some i) : i ∉ actors f (h ++ [x]) := by
  rw [actors_snoc, List.mem_append]
  rintro (hmem | hmem)
  · exact hi hmem
  · exact hx (hf _ _ (Option.mem_toList.mp hmem))

/-- Where a history is cut, the run that leaves it is cut. -/
theorem history_eq_append_cons {tr : List (Transition (Pool C R ε α σ) (Label C R))}
    {past future : History C R σ} {x : Transition σ (Label C R)}
    (h : history tr = past ++ x :: future) : ∃ pre y post, tr = pre ++ y :: post ∧
      history pre = past ∧ (⟨y.before.store, y.label, y.after.store⟩ : Transition _ _) = x := by
  obtain ⟨pre, rest, rfl, hpre, hrest⟩ := List.map_eq_append_iff.mp h
  obtain ⟨y, post, rfl, hy, -⟩ := List.map_eq_cons_iff.mp hrest
  exact ⟨pre, y, post, rfl, hpre, hy⟩

/-- `I` holds of the history and the store, and `J i` of every point process `i` stands at. -/
structure Holds (flow : Flow C R ε α P) (I : History C R σ → σ → Prop)
    (J : ℕ → History C R σ → σ → P → Prop) (h : History C R σ) (p : Pool C R ε α σ) : Prop where
  shared : I h p.store
  started : ∀ i, p.procs i = none → ∀ x ∈ h, x.label.proc ≠ some i
  point : ∀ i prog, p.procs i = some prog → ∃ q, Follows flow prog q ∧ J i h p.store q

/-- The obligations of an invariant: what a step of process `i` does to `I` and to its own
`J i`, and that it leaves every other process alone. -/
structure Keeps (exec : (c : C) → σ → R c × σ) (env : σ → σ → Prop) (flow : Flow C R ε α P)
    (entry : P) (I : History C R σ → σ → Prop) (J : ℕ → History C R σ → σ → P → Prop) : Prop where
  start : ∀ h s i, I h s → (∀ x ∈ h, x.label.proc ≠ some i) →
    I (h ++ [⟨s, .start i, s⟩]) s ∧ J i (h ++ [⟨s, .start i, s⟩]) s entry
  issue : ∀ h s i q c next, flow q = .call c next → I h s → J i h s q →
    I (h ++ [⟨s, .issue i c (exec c s).1, (exec c s).2⟩]) (exec c s).2 ∧
      J i (h ++ [⟨s, .issue i c (exec c s).1, (exec c s).2⟩]) (exec c s).2 (next (exec c s).1)
  passes : ∀ h s t, env s t → I h s → I (h ++ [⟨s, .env, t⟩]) t
  /-- `J j` survives the steps that are not its own. -/
  frame : ∀ h s j q, I h s → J j h s q →
    (∀ i, i ≠ j → J j (h ++ [⟨s, .start i, s⟩]) s q) ∧
    (∀ i q' c next, i ≠ j → flow q' = .call c next → J i h s q' →
      J j (h ++ [⟨s, .issue i c (exec c s).1, (exec c s).2⟩]) (exec c s).2 q) ∧
    ∀ t, env s t → J j (h ++ [⟨s, .env, t⟩]) t q

variable {exec body env} {flow : Flow C R ε α P} {entry : P} {I : History C R σ → σ → Prop}
  {J : ℕ → History C R σ → σ → P → Prop}

/-- A step of process `i` is no step of a process that has not started after it. -/
theorem started_update {h : History C R σ} {procs : ℕ → Option (Prog C R ε α)}
    (hstarted : ∀ j, procs j = none → ∀ x ∈ h, x.label.proc ≠ some j) (i : ℕ)
    (prog : Prog C R ε α) {y : Transition σ (Label C R)} (hy : y.label.proc = some i) (j : ℕ)
    (hj : Function.update procs i (some prog) j = none) :
    ∀ x ∈ h ++ [y], x.label.proc ≠ some j := by
  intro x hx
  by_cases hij : j = i
  · simp [hij] at hj
  · rw [Function.update_of_ne hij] at hj
    rcases List.mem_append.mp hx with hx | hx
    · exact hstarted j hj x hx
    · obtain rfl := List.mem_singleton.mp hx
      rw [hy]
      exact fun heq => hij (Option.some.inj heq).symm

theorem Holds.step (hbody : Follows flow body entry) (hkeeps : Keeps exec env flow entry I J)
    {h : History C R σ} {p q : Pool C R ε α σ} {l : Label C R} (hold : Holds flow I J h p)
    (hstep : Step exec body env p l q) :
    Holds flow I J (h ++ [⟨p.store, l, q.store⟩]) q := by
  obtain ⟨hI, hstarted, hpoint⟩ := hold
  cases hstep with
  | @start i hi =>
    obtain ⟨hI', hJ'⟩ := hkeeps.start h p.store i hI (hstarted i hi)
    refine ⟨hI', started_update hstarted i _ rfl, fun j prog hj => ?_⟩
    change Function.update p.procs i (some body) j = some prog at hj
    by_cases hij : j = i
    · subst hij
      rw [Function.update_self, Option.some.injEq] at hj
      exact ⟨entry, hj ▸ hbody, hJ'⟩
    · rw [Function.update_of_ne hij] at hj
      obtain ⟨q, hq, hJ⟩ := hpoint j prog hj
      exact ⟨q, hq, (hkeeps.frame h p.store j q hI hJ).1 i (Ne.symm hij)⟩
  | @issue i c k hi =>
    obtain ⟨q, ⟨next, hflow, hnext⟩, hJ⟩ := hpoint i _ hi
    obtain ⟨hI', hJ'⟩ := hkeeps.issue h p.store i q c next hflow hI hJ
    refine ⟨hI', started_update hstarted i _ rfl, fun j prog hj => ?_⟩
    change Function.update p.procs i _ j = some prog at hj
    by_cases hij : j = i
    · subst hij
      rw [Function.update_self, Option.some.injEq] at hj
      exact ⟨_, hj ▸ hnext _, hJ'⟩
    · rw [Function.update_of_ne hij] at hj
      obtain ⟨q', hq', hJ''⟩ := hpoint j prog hj
      exact ⟨q', hq', (hkeeps.frame h p.store j q' hI hJ'').2.1 i q c next (Ne.symm hij) hflow hJ⟩
  | @env t ht =>
    refine ⟨hkeeps.passes h p.store t ht hI, fun j hj x hx => ?_, fun j prog hj => ?_⟩
    · rcases List.mem_append.mp hx with hx | hx
      · exact hstarted j hj x hx
      · obtain rfl := List.mem_singleton.mp hx
        simp [Label.proc]
    · obtain ⟨q, hq, hJ⟩ := hpoint j prog hj
      exact ⟨q, hq, (hkeeps.frame h p.store j q hI hJ).2.2 t ht⟩

/-- What every step keeps holds at the end of every run of a fresh pool. -/
theorem invariant (hbody : Follows flow body entry) (hkeeps : Keeps exec env flow entry I J)
    {s : σ} {p : Pool C R ε α σ} {tr : List (Transition (Pool C R ε α σ) (Label C R))}
    (hrun : Run (Step exec body env) (fresh s) tr p) (hI : I [] s) :
    Holds flow I J (history tr) p := by
  induction hrun with
  | nil => exact ⟨hI, by simp, by simp [fresh]⟩
  | snoc _ hstep ih =>
    rw [history_append]
    exact ih.step hbody hkeeps hstep

/-- The sequential meaning is one of the interleavings: a process left alone runs its program to
the end, and the others stand where they stood. -/
theorem exists_solo_run {i : ℕ} {prog : Prog C R ε α} {p : Pool C R ε α σ}
    (hi : p.procs i = some prog) {a : α} {t : σ} (hprog : prog.run exec p.store = (.ok a, t)) :
    ∃ tr, Run (Step exec body env) p tr ⟨t, Function.update p.procs i (some (.ret a))⟩ ∧
      started (history tr) = [] := by
  induction prog generalizing p with
  | ret b =>
    obtain ⟨hb, rfl⟩ := Prod.mk.inj hprog
    obtain rfl := Except.ok.inj hb
    rw [← hi, Function.update_eq_self]
    exact ⟨[], .nil, rfl⟩
  | raise e => simp at hprog
  | call c k ih =>
    obtain ⟨tr, hrun, hnone⟩ := ih (exec c p.store).1
      (p := ⟨(exec c p.store).2, Function.update p.procs i (some (k (exec c p.store).1))⟩)
      (Function.update_self ..) hprog
    rw [Function.update_idem] at hrun
    exact ⟨_, hrun.cons (.issue hi), hnone⟩

/-- A process that is left alone for at most `n` commands. -/
theorem exists_advance (n : ℕ) {i : ℕ} {prog : Prog C R ε α} {p : Pool C R ε α σ}
    (hi : p.procs i = some prog) : ∃ tr, Run (Step exec body env) p tr
      ⟨(prog.advance exec n p.store).2,
        Function.update p.procs i (some (prog.advance exec n p.store).1)⟩ ∧
      started (history tr) = [] := by
  induction n generalizing prog p with
  | zero =>
    refine ⟨[], ?_, rfl⟩
    rw [Prog.advance.eq_def, ← hi, Function.update_eq_self]
    exact .nil
  | succ n ih =>
    cases prog with
    | ret | raise =>
      refine ⟨[], ?_, rfl⟩
      rw [Prog.advance.eq_def, ← hi, Function.update_eq_self]
      exact .nil
    | call c k =>
      obtain ⟨tr, hrun, hnone⟩ := ih
        (p := ⟨(exec c p.store).2, Function.update p.procs i (some (k (exec c p.store).1))⟩)
        (Function.update_self ..)
      rw [Function.update_idem] at hrun
      exact ⟨_, hrun.cons (.issue hi), hnone⟩

/-- Two processes in contention: the first is left after `n` commands, the second comes to its end,
and the first goes on to its own. -/
theorem exists_contended_run (n : ℕ) {s t u : σ} {a b : α}
    (hsecond : body.run exec (body.advance exec n s).2 = (.ok b, t))
    (hfirst : (body.advance exec n s).1.run exec t = (.ok a, u)) :
    ∃ tr p, Run (Step exec body env) (fresh s) tr p ∧ p.store = u ∧
      p.procs 0 = some (.ret a) ∧ p.procs 1 = some (.ret b) ∧ started (history tr) = [0, 1] := by
  let first : Pool C R ε α σ := ⟨s, Function.update (fun _ => none) 0 (some body)⟩
  let both : Pool C R ε α σ := ⟨s, Function.update first.procs 1 (some body)⟩
  let left : Pool C R ε α σ :=
    ⟨(body.advance exec n s).2, Function.update both.procs 0 (some (body.advance exec n s).1)⟩
  have hstart : Step exec body env (fresh s) (.start 0) first := .start rfl
  have hboth : Step exec body env first (.start 1) both := .start rfl
  obtain ⟨tr₀, hrun₀, hnone₀⟩ : ∃ tr, Run (Step exec body env) both tr left ∧ _ :=
    exists_advance n (by simp [both, first])
  obtain ⟨tr₁, hrun₁, hnone₁⟩ : ∃ tr, Run (Step exec body env) left tr _ ∧ _ :=
    exists_solo_run (i := 1) (by simp [left, both]) hsecond
  obtain ⟨tr₂, hrun₂, hnone₂⟩ :
      ∃ tr, Run (Step exec body env) ⟨t, Function.update left.procs 1 (some (.ret b))⟩ tr _ ∧ _ :=
    exists_solo_run (i := 0) (by simp [left]) hfirst
  have hrest := (hrun₀.trans hrun₁).trans hrun₂
  refine ⟨_, _, (hrest.cons hboth).cons hstart, rfl, by simp, by simp, ?_⟩
  have hnone : started (history (tr₀ ++ tr₁ ++ tr₂)) = [] := by simp [hnone₀, hnone₁, hnone₂]
  exact congrArg (0 :: 1 :: ·) hnone

end Pool

end BaseWebService.Library
