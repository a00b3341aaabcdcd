import Mathlib.Logic.Function.Basic
import BaseWebService.Library.EventLoop

/-!
# Processes that fork

Each process runs one program at a time over a memory of its own, and a process that forks gives the
new one a copy. The commands of different processes follow each other in any order, and a process
may end between any two of its commands, so every way in which the system can schedule them is a
run. Processes are told apart by the order of the forks that made them: the number that the
operating system knows a process by is part of its memory and may come back.

No command reaches the memory of another process, so what a program keeps when it runs alone it
keeps here, and `Processes.kept_private` asks for nothing else besides what a fork hands on.

## Main definitions

* `Machine` : what a command does, which programs there are, and what a fork copies.
* `Processes`, `Processes.Step` : the processes that are there, and what may happen next.
* `Processes.Kept` : what `Processes.kept_private` says of all of them.
-/

namespace BaseWebService.Library

variable {C : Type} {R : C → Type} {ε M B : Type} {V : B → Type}

/-- The programs of a system of processes. `calls` says where a program may be called, and `forks`
with which memory a new process starts when another one forks. -/
structure Machine (C : Type) (R : C → Type) (ε M B : Type) (V : B → Type) where
  kernel : Kernel C R M
  body : (b : B) → Prog C R ε (V b)
  calls : ℕ → B → Prop
  forks : (parent child : ℕ) → (m m' : M) → Prop

/-- A process, with the commands that were answered in it. -/
structure Process (C : Type) (R : C → Type) (ε M : Type) {B : Type} (V : B → Type) where
  memory : M
  history : List (Event C R) := []
  running : Option ((b : B) × Prog C R ε (V b)) := none

/-- The processes that are there, by the order in which they were made. -/
structure Processes (C : Type) (R : C → Type) (ε M : Type) {B : Type} (V : B → Type) where
  process : ℕ → Option (Process C R ε M V)
  made : ℕ

namespace Processes

inductive Label (C : Type) (R : C → Type) (ε : Type) {B : Type} (V : B → Type) where
  | call (i : ℕ) (b : B)
  | answer (i : ℕ) (c : C) (r : R c)
  | finish (i : ℕ) (b : B) (r : Except ε (V b))
  | fork (parent child : ℕ)
  | exit (i : ℕ)

def put (s : Processes C R ε M V) (i : ℕ) (p : Option (Process C R ε M V)) :
    Processes C R ε M V :=
  { s with process := Function.update s.process i p }

@[simp] theorem process_put (s : Processes C R ε M V) (i : ℕ) (p : Option (Process C R ε M V)) :
    (s.put i p).process i = p := by
  simp only [put, Function.update_self]

@[simp] theorem put_put (s : Processes C R ε M V) (i : ℕ) (p q : Option (Process C R ε M V)) :
    (s.put i p).put i q = s.put i q := by
  simp only [put, Function.update_idem]

theorem process_put_of_ne {s : Processes C R ε M V} {i j : ℕ} (hne : j ≠ i)
    (p : Option (Process C R ε M V)) : (s.put i p).process j = s.process j := by
  simp only [put, Function.update_of_ne hne]

theorem put_process {s : Processes C R ε M V} {i : ℕ} {p : Option (Process C R ε M V)}
    (hp : s.process i = p) : s.put i p = s := by
  rw [put, ← hp, Function.update_eq_self]

inductive Step (m : Machine C R ε M B V) :
    Processes C R ε M V → Label C R ε V → Processes C R ε M V → Prop where
  | call {s : Processes C R ε M V} {i : ℕ} {p : Process C R ε M V} {b : B} :
      s.process i = some p → p.running = none → m.calls i b →
      Step m s (.call i b) (s.put i (some { p with running := some ⟨b, m.body b⟩ }))
  | answer {s : Processes C R ε M V} {i : ℕ} {p : Process C R ε M V} {b : B} {c : C}
      {k : R c → Prog C R ε (V b)} {r : R c} {t : M} :
      s.process i = some p → p.running = some ⟨b, .call c k⟩ → m.kernel.answer i c p.memory r t →
      Step m s (.answer i c r)
        (s.put i (some ⟨t, p.history ++ [⟨c, r⟩], some ⟨b, k r⟩⟩))
  | finish {s : Processes C R ε M V} {i : ℕ} {p : Process C R ε M V} {b : B}
      {q : Prog C R ε (V b)} {r : Except ε (V b)} :
      s.process i = some p → p.running = some ⟨b, q⟩ → q.result? = some r →
      Step m s (.finish i b r) (s.put i (some { p with running := none }))
  | fork {s : Processes C R ε M V} {i : ℕ} {p : Process C R ε M V} {t : M} :
      s.process i = some p → p.running = none → m.forks i s.made p.memory t →
      Step m s (.fork i s.made) { s.put s.made (some { memory := t }) with made := s.made + 1 }
  | exit {s : Processes C R ε M V} {i : ℕ} : Step m s (.exit i) (s.put i none)

/-- There is the first process only. -/
def fresh (memory : M) : Processes C R ε M V :=
  { process := Function.update (fun _ => none) 0 (some { memory }), made := 1 }

variable {m : Machine C R ε M B V} {A : ℕ → List (Event C R) → M → Prop}
  {I : ℕ → List (Event C R) → M → Prop}
  {Q : ℕ → (b : B) → Except ε (V b) → List (Event C R) → M → Prop}

/-- Between calls `I` holds of the process, and what it runs will come to its end as `Q` says, with
`A` all the way. -/
structure Settled (m : Machine C R ε M B V) (A I : ℕ → List (Event C R) → M → Prop)
    (Q : ℕ → (b : B) → Except ε (V b) → List (Event C R) → M → Prop) (i : ℕ)
    (p : Process C R ε M V) : Prop where
  idle : p.running = none → I i p.history p.memory
  busy : ∀ b q, p.running = some ⟨b, q⟩ →
    Alone m.kernel (A i) i (fun r h t => I i h t ∧ Q i b r h t) q p.history p.memory

structure Kept (m : Machine C R ε M B V) (A I : ℕ → List (Event C R) → M → Prop)
    (Q : ℕ → (b : B) → Except ε (V b) → List (Event C R) → M → Prop)
    (s : Processes C R ε M V) : Prop where
  unmade : ∀ i, s.made ≤ i → s.process i = none
  settled : ∀ i p, s.process i = some p → Settled m A I Q i p

/-- What holds of the new contents of a place, and held of all others. -/
theorem Kept.put {s : Processes C R ε M V} (hs : Kept m A I Q s) {i : ℕ}
    {p : Option (Process C R ε M V)} (hi : i < s.made) (hp : ∀ q ∈ p, Settled m A I Q i q) :
    Kept m A I Q (s.put i p) := by
  refine ⟨fun j hj => ?_, fun j q hq => ?_⟩
  · have hne : j ≠ i := fun h => absurd (h ▸ hj) (Nat.not_le.mpr hi)
    rw [process_put_of_ne hne]
    exact hs.unmade j hj
  · by_cases hji : j = i
    · subst hji
      rw [process_put] at hq
      exact hp q hq
    · rw [process_put_of_ne hji] at hq
      exact hs.settled j q hq

theorem Kept.lt_made {s : Processes C R ε M V} (hs : Kept m A I Q s) {i : ℕ}
    {p : Process C R ε M V} (hp : s.process i = some p) : i < s.made := by
  by_contra hle
  simp [hs.unmade i (Nat.not_lt.mp hle)] at hp

theorem Kept.step {s s' : Processes C R ε M V} {x : Label C R ε V}
    (hbody : ∀ i b h t, m.calls i b → I i h t →
      Alone m.kernel (A i) i (fun r h t => I i h t ∧ Q i b r h t) (m.body b) h t)
    (hfork : ∀ i j h t t', I i h t → m.forks i j t t' → i < j → I j [] t')
    (hs : Kept m A I Q s) (hstep : Step m s x s') : Kept m A I Q s' := by
  cases hstep with
  | @call i p b hp hidle hcalls =>
    refine hs.put (hs.lt_made hp) ?_
    rintro _ ⟨⟩
    refine ⟨nofun, fun b' q hq => ?_⟩
    cases hq
    exact hbody i b p.history p.memory hcalls ((hs.settled i p hp).idle hidle)
  | @answer i p b c k r t hp hbusy hanswer =>
    refine hs.put (hs.lt_made hp) ?_
    rintro _ ⟨⟩
    refine ⟨nofun, fun b' q hq => ?_⟩
    cases hq
    exact ((hs.settled i p hp).busy b _ hbusy).2.2 r t hanswer
  | @finish i p b q r hp hbusy hresult =>
    refine hs.put (hs.lt_made hp) ?_
    rintro _ ⟨⟩
    exact ⟨fun _ => (((hs.settled i p hp).busy b q hbusy).result hresult).1, nofun⟩
  | @fork i p t hp hidle hforks =>
    have hkept : I s.made [] t :=
      hfork i s.made p.history p.memory t ((hs.settled i p hp).idle hidle) hforks (hs.lt_made hp)
    refine ⟨fun j hj => ?_, fun j q hq => ?_⟩
    · have hne : j ≠ s.made := Nat.ne_of_gt hj
      exact (process_put_of_ne hne _).trans (hs.unmade j (Nat.le_of_succ_le hj))
    · by_cases hj : j = s.made
      · subst hj
        obtain rfl := Option.some_inj.mp ((process_put s s.made _).symm.trans hq)
        exact ⟨fun _ => hkept, nofun⟩
      · exact hs.settled j q ((process_put_of_ne hj _).symm.trans hq)
  | @exit i =>
    refine ⟨fun j hj => ?_, fun j q hq => ?_⟩
    · by_cases hji : j = i
      · rw [hji, process_put]
      · rw [process_put_of_ne hji]
        exact hs.unmade j hj
    · by_cases hji : j = i
      · rw [hji, process_put] at hq
        cases hq
      · rw [process_put_of_ne hji] at hq
        exact hs.settled j q hq

/-- What the programs keep when they run alone, and a fork hands on, every process keeps. -/
theorem kept_private (hbody : ∀ i b h t, m.calls i b → I i h t →
      Alone m.kernel (A i) i (fun r h t => I i h t ∧ Q i b r h t) (m.body b) h t)
    (hfork : ∀ i j h t t', I i h t → m.forks i j t t' → i < j → I j [] t')
    {t₀ : M} (hinit : I 0 [] t₀)
    {tr : List (Transition (Processes C R ε M V) (Label C R ε V))} {s : Processes C R ε M V}
    (hrun : Run (Step m) (fresh t₀) tr s) : Kept m A I Q s := by
  refine hrun.invariant (fun _ _ _ hs hstep => hs.step hbody hfork hstep) ⟨fun j hj => ?_, ?_⟩
  · have hne : j ≠ 0 := by rintro rfl; exact absurd hj (by simp [fresh])
    simp [fresh, Function.update_of_ne hne]
  · intro i p hp
    by_cases hi : i = 0
    · subst hi
      simp only [fresh, Function.update_self, Option.some_inj] at hp
      subst hp
      exact ⟨fun _ => hinit, nofun⟩
    · simp [fresh, Function.update_of_ne hi] at hp

/-- What holds all the way holds now. -/
theorem Kept.always {s : Processes C R ε M V} (hs : Kept m A I Q s)
    (hI : ∀ i h t, I i h t → A i h t) {i : ℕ} {p : Process C R ε M V}
    (hp : s.process i = some p) : A i p.history p.memory := by
  cases hrunning : p.running with
  | none => exact hI _ _ _ ((hs.settled i p hp).idle hrunning)
  | some running => exact ((hs.settled i p hp).busy running.1 running.2 hrunning).always

/-- How a call ends is how it ends alone. -/
theorem Kept.finish {s s' : Processes C R ε M V} {i : ℕ} {b : B} {r : Except ε (V b)}
    (hs : Kept m A I Q s) (hstep : Step m s (.finish i b r) s') :
    ∃ p, s'.process i = some p ∧ I i p.history p.memory ∧ Q i b r p.history p.memory := by
  cases hstep with
  | @finish _ p _ q _ hp hbusy hresult =>
    refine ⟨{ p with running := none }, process_put s i _, ?_⟩
    exact ((hs.settled i p hp).busy b q hbusy).result hresult

/-! ## Runs of one process -/

section solo
variable {exec : (c : C) → M → R c × M} {s : Processes C R ε M V} {i : ℕ} {b : B}

/-- A program that nobody else interrupts comes to its end. -/
theorem exists_run (hexec : ∀ c t, m.kernel.answer i c t (exec c t).1 (exec c t).2)
    {q : Prog C R ε (V b)} {t : M} {h : List (Event C R)}
    (hp : s.process i = some ⟨t, h, some ⟨b, q⟩⟩) :
    ∃ tr h' q', Run (Step m) s tr (s.put i (some ⟨(q.run exec t).2, h', some ⟨b, q'⟩⟩)) ∧
      q'.result? = some (q.run exec t).1 := by
  induction q generalizing s t h with
  | ret a =>
    refine ⟨[], h, .ret a, ?_, rfl⟩
    rw [Prog.run_ret, put_process hp]
    exact .nil
  | raise e =>
    refine ⟨[], h, .raise e, ?_, rfl⟩
    rw [Prog.run_raise, put_process hp]
    exact .nil
  | call c k ih =>
    have hstep : Step m s (.answer i c (exec c t).1)
        (s.put i (some ⟨(exec c t).2, h ++ [⟨c, (exec c t).1⟩], some ⟨b, k (exec c t).1⟩⟩)) :=
      .answer hp rfl (hexec c t)
    obtain ⟨tr, h', q', hrun, hresult⟩ := ih (exec c t).1 (process_put s i _)
    rw [put_put] at hrun
    exact ⟨_, h', q', .cons hstep hrun, hresult⟩

/-- A call that nobody else interrupts. -/
theorem exists_call (hexec : ∀ c t, m.kernel.answer i c t (exec c t).1 (exec c t).2) {t : M}
    {h : List (Event C R)} (hp : s.process i = some ⟨t, h, none⟩) (hcalls : m.calls i b) :
    ∃ tr u h', Run (Step m) s tr u ∧ Step m u (.finish i b ((m.body b).run exec t).1)
      (s.put i (some ⟨((m.body b).run exec t).2, h', none⟩)) := by
  have hcall : Step m s (.call i b) (s.put i (some ⟨t, h, some ⟨b, m.body b⟩⟩)) :=
    .call hp rfl hcalls
  obtain ⟨tr, h', q', hrun, hresult⟩ := exists_run hexec (process_put s i _)
  rw [put_put] at hrun
  refine ⟨_, _, h', .cons hcall hrun, ?_⟩
  have hfinish : Step m (s.put i (some ⟨(Prog.run exec (m.body b) t).2, h', some ⟨b, q'⟩⟩))
      (.finish i b (Prog.run exec (m.body b) t).1) _ := .finish (process_put s i _) rfl hresult
  rwa [put_put] at hfinish

end solo

end Processes

end BaseWebService.Library
