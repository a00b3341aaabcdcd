import Mathlib.Tactic.Common

/-!
# Programs over a store of atomic commands

A `Prog` issues one command at a time to a shared store and continues with the reply.
The store alone decides what a command does, so the same program has a sequential
meaning (`Prog.run`, no one else acts in between) and an interleaved one (the module
`Pool`, where every command of every program is a step of its own).

Exceptions are a constructor of the syntax: `raise` ends a program and `handle` is the
`try ... except` of the modelled language.
-/

namespace BaseWebService.Library

/-- A program over commands `C` with replies `R`, exceptions `ε` and result `α`. -/
inductive Prog (C : Type) (R : C → Type) (ε α : Type) where
  | ret (a : α)
  | raise (e : ε)
  | call (c : C) (k : R c → Prog C R ε α)

namespace Prog

variable {C : Type} {R : C → Type} {ε α β σ : Type}

def bind : Prog C R ε α → (α → Prog C R ε β) → Prog C R ε β
  | .ret a, f => f a
  | .raise e, _ => .raise e
  | .call c k, f => .call c fun r => (k r).bind f

/-- Run `h` on the exception, if there is one. -/
def handle : Prog C R ε α → (ε → Prog C R ε α) → Prog C R ε α
  | .ret a, _ => .ret a
  | .raise e, h => h e
  | .call c k, h => .call c fun r => (k r).handle h

instance : Monad (Prog C R ε) where
  pure := .ret
  bind := .bind

instance : MonadExceptOf ε (Prog C R ε) where
  throw := .raise
  tryCatch := .handle

/-- How the program ends, as a value. -/
def attempt : Prog C R ε α → Prog C R ε (Except ε α)
  | .ret a => .ret (.ok a)
  | .raise e => .ret (.error e)
  | .call c k => .call c fun r => (k r).attempt

/-- To end as something has ended. -/
def rethrow : Except ε α → Prog C R ε α
  | .ok a => .ret a
  | .error e => .raise e

/-- `try: p finally: q`. -/
def tryFinally (p : Prog C R ε α) (q : Prog C R ε Unit) : Prog C R ε α := do
  let ended ← p.attempt
  q
  rethrow ended

/-- The program that issues `c` and returns its reply. -/
def perform (c : C) : Prog C R ε (R c) := .call c .ret

@[simp] theorem pure_def (a : α) : (pure a : Prog C R ε α) = .ret a := rfl
@[simp] theorem throw_def (e : ε) : (throw e : Prog C R ε α) = .raise e := rfl
@[simp] theorem tryCatch_def (p : Prog C R ε α) (h : ε → Prog C R ε α) :
    tryCatch p h = p.handle h := rfl
@[simp] theorem ret_bind (a : α) (f : α → Prog C R ε β) : (.ret a : Prog C R ε α) >>= f = f a := rfl
@[simp] theorem raise_bind (e : ε) (f : α → Prog C R ε β) :
    (.raise e : Prog C R ε α) >>= f = .raise e := rfl
@[simp] theorem call_bind (c : C) (k : R c → Prog C R ε α) (f : α → Prog C R ε β) :
    (.call c k : Prog C R ε α) >>= f = .call c fun r => k r >>= f := rfl
@[simp] theorem perform_bind (c : C) (f : R c → Prog C R ε β) :
    (perform c : Prog C R ε (R c)) >>= f = .call c f := rfl
@[simp] theorem handle_ret (a : α) (h : ε → Prog C R ε α) :
    (.ret a : Prog C R ε α).handle h = .ret a := rfl
@[simp] theorem handle_raise (e : ε) (h : ε → Prog C R ε α) :
    (.raise e : Prog C R ε α).handle h = h e := rfl

/-- Every command the program can issue satisfies `P`. -/
def Only (P : C → Prop) : Prog C R ε α → Prop
  | .ret _ => True
  | .raise _ => True
  | .call c k => P c ∧ ∀ r, (k r).Only P

theorem Only.bind {P : C → Prop} {p : Prog C R ε α} (hp : p.Only P) {f : α → Prog C R ε β}
    (hf : ∀ a, (f a).Only P) : (p >>= f).Only P := by
  induction p with
  | ret a => exact hf a
  | raise e => trivial
  | call c k ih => exact ⟨hp.1, fun r => ih r (hp.2 r)⟩

theorem Only.handle {P : C → Prop} {p : Prog C R ε α} (hp : p.Only P) {h : ε → Prog C R ε α}
    (hh : ∀ e, (h e).Only P) : (p.handle h).Only P := by
  induction p with
  | ret a => trivial
  | raise e => exact hh e
  | call c k ih => exact ⟨hp.1, fun r => ih r (hp.2 r)⟩

/-- The sequential meaning: nothing else touches the store while the program runs. -/
def run (exec : (c : C) → σ → R c × σ) : Prog C R ε α → σ → Except ε α × σ
  | .ret a, s => (.ok a, s)
  | .raise e, s => (.error e, s)
  | .call c k, s => (k (exec c s).1).run exec (exec c s).2

section run
variable (exec : (c : C) → σ → R c × σ)

@[simp] theorem run_ret (a : α) (s : σ) : (.ret a : Prog C R ε α).run exec s = (.ok a, s) := rfl
@[simp] theorem run_raise (e : ε) (s : σ) : (.raise e : Prog C R ε α).run exec s = (.error e, s) :=
  rfl
@[simp] theorem run_call (c : C) (k : R c → Prog C R ε α) (s : σ) :
    (.call c k : Prog C R ε α).run exec s = (k (exec c s).1).run exec (exec c s).2 := rfl

/-- A sequence runs its second part from the state the first one leaves. -/
theorem run_bind (p : Prog C R ε α) (f : α → Prog C R ε β) (s : σ) :
    (p >>= f).run exec s = match p.run exec s with
      | (.ok a, t) => (f a).run exec t
      | (.error e, t) => (.error e, t) := by
  induction p generalizing s with
  | ret | raise => rfl
  | call c k ih => exact ih _ _

theorem run_bind_ok {p : Prog C R ε α} {s t : σ} {a : α} (h : p.run exec s = (.ok a, t))
    (f : α → Prog C R ε β) : (p >>= f).run exec s = (f a).run exec t := by
  rw [run_bind, h]

/-- A handler sees the store as it was when the exception was raised. -/
theorem run_handle (p : Prog C R ε α) (h : ε → Prog C R ε α) (s : σ) :
    (p.handle h).run exec s = match p.run exec s with
      | (.ok a, t) => (.ok a, t)
      | (.error e, t) => (h e).run exec t := by
  induction p generalizing s with
  | ret | raise => rfl
  | call c k ih => exact ih _ _

/-- What every command keeps, every program keeps. -/
theorem run_invariant {I : σ → Prop} (hI : ∀ c s, I s → I (exec c s).2) (p : Prog C R ε α) {s : σ}
    (hs : I s) : I (p.run exec s).2 := by
  induction p generalizing s with
  | ret | raise => exact hs
  | call c k ih => exact ih _ (hI c s hs)

/-- What every allowed command keeps, every program of such commands keeps. -/
theorem run_only_invariant {P : C → Prop} {I : σ → Prop} (hI : ∀ c s, P c → I s → I (exec c s).2)
    {p : Prog C R ε α} (hp : p.Only P) {s : σ} (hs : I s) : I (p.run exec s).2 := by
  induction p generalizing s with
  | ret | raise => exact hs
  | call c k ih => exact ih _ (hp.2 _) (hI c s hp.1 hs)

/-- What is left of a program, and of the store, after at most `n` commands. -/
def advance (n : ℕ) (p : Prog C R ε α) (s : σ) : Prog C R ε α × σ :=
  match n, p with
  | n + 1, .call c k => (k (exec c s).1).advance n (exec c s).2
  | _, p => (p, s)

/-- The states a run passes through, the first and the last one included. -/
def visited : Prog C R ε α → σ → List σ
  | .ret _, s => [s]
  | .raise _, s => [s]
  | .call c k, s => s :: (k (exec c s).1).visited (exec c s).2

end run

end Prog

end BaseWebService.Library
