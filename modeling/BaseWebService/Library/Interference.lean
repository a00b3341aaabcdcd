import Mathlib.Logic.Relation
import BaseWebService.Library.Prog

/-!
# Runs with interference

Between two commands of a program the store may take steps of its own: a clock moves on, a key
expires. A run that nothing interferes with is `Prog.run`, and what the store's own steps keep
can be carried from one command to the next. Where it matters what the commands have met, a
watched run lists them with the state of the store at each.
-/

namespace BaseWebService.Library

variable {C : Type} {R : C → Type} {ε α β σ : Type}

/-- A run of a program in which the store takes steps of its own. -/
inductive Interfered (exec : (c : C) → σ → R c × σ) (env : σ → σ → Prop) :
    Prog C R ε α → σ → Except ε α → σ → Prop where
  | ret {a : α} {s : σ} : Interfered exec env (.ret a) s (.ok a) s
  | raise {e : ε} {s : σ} : Interfered exec env (.raise e) s (.error e) s
  | call {c : C} {k : R c → Prog C R ε α} {s t : σ} {r : Except ε α} :
      Interfered exec env (k (exec c s).1) (exec c s).2 r t → Interfered exec env (.call c k) s r t
  | env {p : Prog C R ε α} {s u t : σ} {r : Except ε α} :
      env s u → Interfered exec env p u r t → Interfered exec env p s r t

/-- A run with interference, with its commands and the states they are executed in. -/
inductive Watched (exec : (c : C) → σ → R c × σ) (env : σ → σ → Prop) :
    Prog C R ε α → σ → List (C × σ) → Except ε α → σ → Prop where
  | ret {a : α} {s : σ} : Watched exec env (.ret a) s [] (.ok a) s
  | raise {e : ε} {s : σ} : Watched exec env (.raise e) s [] (.error e) s
  | call {c : C} {k : R c → Prog C R ε α} {s t : σ} {log : List (C × σ)} {r : Except ε α} :
      Watched exec env (k (exec c s).1) (exec c s).2 log r t →
      Watched exec env (.call c k) s ((c, s) :: log) r t
  | env {p : Prog C R ε α} {s u t : σ} {log : List (C × σ)} {r : Except ε α} :
      env s u → Watched exec env p u log r t → Watched exec env p s log r t

namespace Watched

variable {exec : (c : C) → σ → R c × σ} {env : σ → σ → Prop} {s t : σ} {log : List (C × σ)}

theorem interfered {p : Prog C R ε α} {r : Except ε α} (h : Watched exec env p s log r t) :
    Interfered exec env p s r t := by
  induction h with
  | ret => exact .ret
  | raise => exact .raise
  | call _ ih => exact .call ih
  | env hst _ ih => exact .env hst ih

/-- Every run can be watched. -/
theorem of_interfered {p : Prog C R ε α} {r : Except ε α} (h : Interfered exec env p s r t) :
    ∃ log, Watched exec env p s log r t := by
  induction h with
  | ret => exact ⟨[], .ret⟩
  | raise => exact ⟨[], .raise⟩
  | call _ ih =>
    obtain ⟨log, h⟩ := ih
    exact ⟨_, .call h⟩
  | env hst _ ih =>
    obtain ⟨log, h⟩ := ih
    exact ⟨log, .env hst h⟩

/-- Nothing is left to do but to wait for the store. -/
theorem ret_inv {a : α} {r : Except ε α} (h : Watched exec env (.ret a) s log r t) :
    log = [] ∧ r = .ok a ∧ Relation.ReflTransGen env s t := by
  generalize hp : (Prog.ret a : Prog C R ε α) = p at h
  induction h with
  | ret => exact ⟨rfl, congrArg Except.ok (Prog.ret.inj hp).symm, .refl⟩
  | raise | call => simp at hp
  | env hst _ ih =>
    obtain ⟨hlog, hr, htail⟩ := ih hp
    exact ⟨hlog, hr, htail.head hst⟩

theorem raise_inv {e : ε} {r : Except ε α} (h : Watched exec env (.raise e) s log r t) :
    log = [] ∧ r = .error e := by
  generalize hp : (Prog.raise e : Prog C R ε α) = p at h
  induction h with
  | raise => exact ⟨rfl, congrArg Except.error (Prog.raise.inj hp).symm⟩
  | ret | call => simp at hp
  | env _ _ ih => exact ih hp

/-- The first command is executed in a state that the store's own steps have left. -/
theorem call_inv {J : σ → Prop} (hJ : ∀ s t, env s t → J s → J t) {c : C}
    {k : R c → Prog C R ε α} {r : Except ε α} (h : Watched exec env (.call c k) s log r t)
    (hs : J s) : ∃ u rest, J u ∧ log = (c, u) :: rest ∧
      Watched exec env (k (exec c u).1) (exec c u).2 rest r t := by
  generalize hp : (Prog.call c k : Prog C R ε α) = p at h
  induction h with
  | ret | raise => simp at hp
  | call h _ =>
    obtain ⟨rfl, hk⟩ := Prog.call.inj hp
    obtain rfl := eq_of_heq hk
    exact ⟨_, _, hs, rfl, h⟩
  | env hst _ ih => exact ih (hJ _ _ hst hs) hp

end Watched

namespace Interfered

variable {exec : (c : C) → σ → R c × σ} {env : σ → σ → Prop} {s t : σ}

theorem of_run {p : Prog C R ε α} {r : Except ε α} (h : p.run exec s = (r, t)) :
    Interfered exec env p s r t := by
  induction p generalizing s with
  | ret a =>
    obtain ⟨rfl, rfl⟩ := Prod.mk.inj h
    exact .ret
  | raise e =>
    obtain ⟨rfl, rfl⟩ := Prod.mk.inj h
    exact .raise
  | call c k ih => exact .call (ih _ h)

/-- What the allowed commands and the store's own steps keep, the run keeps. -/
theorem invariant {P : C → Prop} {I : σ → Prop} (hexec : ∀ c s, P c → I s → I (exec c s).2)
    (henv : ∀ s t, env s t → I s → I t) {p : Prog C R ε α} {r : Except ε α}
    (h : Interfered exec env p s r t) (hp : p.Only P) (hs : I s) : I t := by
  induction h with
  | ret | raise => exact hs
  | call _ ih => exact ih (hp.2 _) (hexec _ _ hp.1 hs)
  | env hst _ ih => exact ih hp (henv _ _ hst hs)

theorem raise_inv {e : ε} {r : Except ε α} (h : Interfered exec env (.raise e) s r t) :
    r = .error e := by
  obtain ⟨log, h⟩ := Watched.of_interfered h
  exact h.raise_inv.2

/-- The first command is executed in a state that the store's own steps have left. -/
theorem call_inv {J : σ → Prop} (hJ : ∀ s t, env s t → J s → J t) {c : C}
    {k : R c → Prog C R ε α} {r : Except ε α} (h : Interfered exec env (.call c k) s r t)
    (hs : J s) : ∃ u, J u ∧ Interfered exec env (k (exec c u).1) (exec c u).2 r t := by
  obtain ⟨log, h⟩ := Watched.of_interfered h
  obtain ⟨u, rest, hu, -, h⟩ := h.call_inv hJ hs
  exact ⟨u, hu, h.interfered⟩

theorem ret_inv {a : α} {r : Except ε α} (h : Interfered exec env (.ret a) s r t) :
    r = .ok a ∧ Relation.ReflTransGen env s t := by
  obtain ⟨log, h⟩ := Watched.of_interfered h
  exact h.ret_inv.2

/-- A run goes on while the store alone takes steps. -/
theorem after {p : Prog C R ε α} {r : Except ε α} {u : σ} (h : Interfered exec env p s r t)
    (htail : Relation.ReflTransGen env t u) : Interfered exec env p s r u := by
  induction h with
  | ret =>
    induction htail using Relation.ReflTransGen.head_induction_on with
    | refl => exact .ret
    | head hst _ ih => exact .env hst ih
  | raise =>
    induction htail using Relation.ReflTransGen.head_induction_on with
    | refl => exact .raise
    | head hst _ ih => exact .env hst ih
  | call _ ih => exact .call (ih htail)
  | env hst _ ih => exact .env hst (ih htail)

theorem stable_of_reflTransGen {J : σ → Prop} (hJ : ∀ s t, env s t → J s → J t) (hs : J s)
    (h : Relation.ReflTransGen env s t) : J t := by
  induction h with
  | refl => exact hs
  | tail _ hst ih => exact hJ _ _ hst ih

/-- Where the body of a handler ends, and with what. -/
theorem handle_inv {p : Prog C R ε α} {f : ε → Prog C R ε α} {r : Except ε α}
    (h : Interfered exec env (p.handle f) s r t) :
    (∃ a, r = .ok a ∧ Interfered exec env p s r t) ∨
      ∃ e u, Interfered exec env p s (.error e) u ∧ Interfered exec env (f e) u r t := by
  generalize hq : p.handle f = q at h
  induction h generalizing p with
  | ret =>
    cases p with
    | ret =>
      obtain rfl := Prog.ret.inj hq
      exact Or.inl ⟨_, rfl, .ret⟩
    | raise e => exact Or.inr ⟨e, _, .raise, by rw [Prog.handle_raise] at hq; exact hq ▸ .ret⟩
    | call => simp [Prog.handle] at hq
  | raise =>
    cases p with
    | ret => simp at hq
    | raise e => exact Or.inr ⟨e, _, .raise, by rw [Prog.handle_raise] at hq; exact hq ▸ .raise⟩
    | call => simp [Prog.handle] at hq
  | call h ih =>
    cases p with
    | ret => simp at hq
    | raise e => exact Or.inr ⟨e, _, .raise, by rw [Prog.handle_raise] at hq; exact hq ▸ .call h⟩
    | call c k =>
      obtain ⟨rfl, hk⟩ := Prog.call.inj hq
      obtain rfl := eq_of_heq hk
      rcases ih rfl with ⟨a, ha, hrun⟩ | ⟨e, u, hrun, hrun'⟩
      · exact Or.inl ⟨a, ha, .call hrun⟩
      · exact Or.inr ⟨e, u, .call hrun, hrun'⟩
  | env hst _ ih =>
    rcases ih hq with ⟨a, ha, hrun⟩ | ⟨e, u, hrun, hrun'⟩
    · exact Or.inl ⟨a, ha, .env hst hrun⟩
    · exact Or.inr ⟨e, u, .env hst hrun, hrun'⟩

theorem handle_error {p : Prog C R ε α} {f : ε → Prog C R ε α} {r : Except ε α} {e : ε} {u : σ}
    (h : Interfered exec env p s (.error e) u) (hf : Interfered exec env (f e) u r t) :
    Interfered exec env (p.handle f) s r t := by
  generalize hend : (Except.error e : Except ε α) = ended at h
  induction h with
  | ret => cases hend
  | raise =>
    cases hend
    exact hf
  | call _ ih => exact .call (ih hf hend)
  | env hst _ ih => exact .env hst (ih hf hend)

theorem bind_ok {p : Prog C R ε α} {f : α → Prog C R ε β} {r : Except ε β} {a : α} {u : σ}
    (h : Interfered exec env p s (.ok a) u) (hf : Interfered exec env (f a) u r t) :
    Interfered exec env (p >>= f) s r t := by
  generalize hend : (Except.ok a : Except ε α) = ended at h
  induction h with
  | ret =>
    cases hend
    exact hf
  | raise => cases hend
  | call _ ih => exact .call (ih hf hend)
  | env hst _ ih => exact .env hst (ih hf hend)

/-- A sequence passes through a state in which its first part has ended. -/
theorem bind_inv {p : Prog C R ε α} {f : α → Prog C R ε β} {r : Except ε β}
    (h : Interfered exec env (p >>= f) s r t) :
    (∃ a u, Interfered exec env p s (.ok a) u ∧ Interfered exec env (f a) u r t) ∨
      ∃ e, r = .error e ∧ Interfered exec env p s (.error e) t := by
  generalize hq : p >>= f = q at h
  induction h generalizing p with
  | ret =>
    cases p with
    | ret a => exact Or.inl ⟨a, _, .ret, by rw [Prog.ret_bind] at hq; exact hq ▸ .ret⟩
    | raise => simp at hq
    | call => simp at hq
  | raise =>
    cases p with
    | ret a => exact Or.inl ⟨a, _, .ret, by rw [Prog.ret_bind] at hq; exact hq ▸ .raise⟩
    | raise e =>
      obtain rfl := Prog.raise.inj hq
      exact Or.inr ⟨_, rfl, .raise⟩
    | call => simp at hq
  | call h ih =>
    cases p with
    | ret a => exact Or.inl ⟨a, _, .ret, by rw [Prog.ret_bind] at hq; exact hq ▸ .call h⟩
    | raise => simp at hq
    | call c k =>
      obtain ⟨rfl, hk⟩ := Prog.call.inj hq
      obtain rfl := eq_of_heq hk
      rcases ih rfl with ⟨a, u, hrun, hrun'⟩ | ⟨e, he, hrun⟩
      · exact Or.inl ⟨a, u, .call hrun, hrun'⟩
      · exact Or.inr ⟨e, he, .call hrun⟩
  | env hst _ ih =>
    rcases ih hq with ⟨a, u, hrun, hrun'⟩ | ⟨e, he, hrun⟩
    · exact Or.inl ⟨a, u, .env hst hrun, hrun'⟩
    · exact Or.inr ⟨e, he, .env hst hrun⟩

end Interfered

end BaseWebService.Library
