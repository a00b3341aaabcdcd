import Mathlib.Algebra.GroupWithZero.Nat
import BaseWebService.Library.Discipline

/-!
# Stores that fail

A command to a store that is reached over a network may fail: the store has not been reached, or it
has executed the command and the reply is lost. `Prog.fallible` is a program that is given up at the
first such command, with a result that is fixed beforehand. `maintains_fallible` is the rule of this
module: what disciplined tasks keep while the store answers they keep while it fails, if any of them
may be abandoned.

How often tasks issue a command of some kind does not depend on the store. `Prog.AtMost` bounds it
for a program, and `Loop.issued_le` for a run.

## Main definitions

* `Prog.AtMost` : how often a program issues a command.
* `Prog.fallible`, `Kernel.fallible` : programs and stores with failing commands.
* `Heard` : what may have been executed, given what was answered.
-/

namespace BaseWebService.Library

variable {C : Type} {R : C → Type} {ε α β σ B T P : Type} {V : B → Type}

/-! ## How often a command is issued -/

/-- How many commands that `p` holds of have been answered. -/
def issued (p : C → Bool) (h : List (Event C R)) : ℕ := h.countP fun e => p e.1

@[simp] theorem issued_snoc (p : C → Bool) (h : List (Event C R)) (e : Event C R) :
    issued p (h ++ [e]) = issued p h + (p e.1).toNat := by
  cases he : p e.1 <;> simp [issued, he]

/-- The program issues at most `n` commands that `p` holds of. -/
def Prog.AtMost (p : C → Bool) : ℕ → Prog C R ε α → Prop
  | _, .ret _ => True
  | _, .raise _ => True
  | n, .call c k => (p c).toNat ≤ n ∧ ∀ r, (k r).AtMost p (n - (p c).toNat)

section atMost
variable {p : C → Bool} {n n' : ℕ} {q : Prog C R ε α}

theorem Prog.AtMost.mono (hq : q.AtMost p n) (hle : n ≤ n') : q.AtMost p n' := by
  induction q generalizing n n' with
  | ret | raise => trivial
  | call c k ih =>
    exact ⟨hq.1.trans hle, fun r => ih r (hq.2 r) (Nat.sub_le_sub_right hle _)⟩

theorem Prog.AtMost.bind {f : α → Prog C R ε β} (hq : q.AtMost p n)
    (hf : ∀ a, (f a).AtMost p n') : (q >>= f).AtMost p (n + n') := by
  induction q generalizing n with
  | ret a => exact (hf a).mono (Nat.le_add_left n' n)
  | raise e => trivial
  | call c k ih =>
    refine ⟨hq.1.trans (Nat.le_add_right n n'), fun r => ?_⟩
    rw [Nat.sub_add_comm hq.1]
    exact ih r (hq.2 r)

end atMost

/-- What the points of a flowchart have left to issue, a program that follows it has. -/
theorem Follows.atMost {flow : Flow C R ε α P} (spare : P → ℕ)
    (hspare : ∀ q c next, flow q = .call c next →
      (p c).toNat ≤ spare q ∧ ∀ r, (p c).toNat + spare (next r) ≤ spare q)
    {prog : Prog C R ε α} {q : P} (h : Follows flow prog q) : prog.AtMost p (spare q) := by
  induction prog generalizing q with
  | ret | raise => trivial
  | call c k ih =>
    obtain ⟨next, hflow, hk⟩ := h
    obtain ⟨hle, hnext⟩ := hspare q c next hflow
    refine ⟨hle, fun r => (ih r (hk r)).mono ?_⟩
    have hspent := hnext r
    omega

namespace Loop

/-- What has been called, in the order of the calls. -/
def called (tr : List (Transition (Loop C R ε σ V) (Label C R ε V))) : List B :=
  tr.filterMap fun x => match x.label with
    | .start _ b => some b
    | _ => none

/-- The tasks that have not ended may issue as many such commands as `n` says. -/
structure Budgeted (p : C → Bool) (n : ℕ) (l : Loop C R ε σ V) (spare : ℕ) (spares : List ℕ) :
    Prop where
  running : ∀ task ∈ l.running, task.rest.AtMost p spare
  waiting : List.Forall₂ (fun task spare => task.rest.AtMost p spare) l.waiting spares
  total : issued p l.history + (spare + spares.sum) ≤ n

variable {K : Kernel C R σ} {body : (b : B) → Prog C R ε (V b)} {p : C → Bool} {most : B → ℕ}

theorem Budgeted.step {l l' : Loop C R ε σ V} {x : Label C R ε V} {n spare : ℕ} {spares : List ℕ}
    (hbody : ∀ b, (body b).AtMost p (most b)) (hl : Budgeted p n l spare spares)
    (hstep : Step K body l x l') :
    ∃ spare' spares', Budgeted p (n + ((called [⟨l, x, l'⟩]).map most).sum) l' spare' spares' := by
  have htotal := hl.total
  cases hstep with
  | @start b hnone =>
    refine ⟨most b, spares, ?_, hl.waiting, ?_⟩
    · rintro task ⟨⟩
      exact hbody b
    · simp only [called, List.filterMap_cons, List.filterMap_nil, List.map_cons, List.map_nil,
        List.sum_cons, List.sum_nil]
      omega
  | @answer i b c k r t hrunning hanswer =>
    have hmost : (Prog.call c k).AtMost p spare := hl.running _ hrunning
    refine ⟨spare - (p c).toNat, spares, ?_, hl.waiting, ?_⟩
    · rintro task ⟨⟩
      exact hmost.2 r
    · have hle := hmost.1
      simp only [issued_snoc, called, List.filterMap_cons, List.filterMap_nil, List.map_nil,
        List.sum_nil]
      omega
  | @suspend i b c k t hrunning hsuspend =>
    refine ⟨0, spares ++ [spare], nofun, ?_, ?_⟩
    · exact List.rel_append hl.waiting (.cons (hl.running _ hrunning) .nil)
    · simp only [called, List.filterMap_cons, List.filterMap_nil, List.map_nil, List.sum_nil,
        List.sum_append, List.sum_cons]
      omega
  | @resume i b c k r t before after hnone hwaiting hresume =>
    have hspares := hl.waiting
    rw [hwaiting] at hspares
    obtain ⟨before', spare', after', rfl, hbefore, hmost, hafter⟩ := forall₂_append_cons hspares
    refine ⟨spare' - (p c).toNat, before' ++ after', ?_, List.rel_append hbefore hafter, ?_⟩
    · rintro task ⟨⟩
      exact hmost.2 r
    · have hle := hmost.1
      simp only [issued_snoc, called, List.filterMap_cons, List.filterMap_nil, List.map_nil,
        List.sum_nil, List.sum_append, List.sum_cons] at htotal ⊢
      omega
  | finish hrunning hresult =>
    refine ⟨spare, spares, nofun, hl.waiting, ?_⟩
    simpa [called] using htotal

/-- In every run, the tasks have issued as many such commands as their calls allow, at most. -/
theorem issued_le (hbody : ∀ b, (body b).AtMost p (most b)) {s : σ}
    {tr : List (Transition (Loop C R ε σ V) (Label C R ε V))} {l : Loop C R ε σ V}
    (hrun : Run (Step K body) (fresh s) tr l) :
    issued p l.history ≤ ((called tr).map most).sum := by
  suffices h : ∃ spare spares, Budgeted p ((called tr).map most).sum l spare spares by
    obtain ⟨spare, spares, h⟩ := h
    have htotal := h.total
    omega
  induction hrun with
  | nil => exact ⟨0, [], nofun, .nil, le_rfl⟩
  | snoc _ hstep ih =>
    obtain ⟨spare, spares, hl⟩ := ih
    have hnext := hl.step hbody hstep
    rwa [called, List.filterMap_append, List.map_append, List.sum_append]

/-- Calls of one kind issue one each, and no others do. -/
theorem issued_le_countP {kind : B → Bool} (hbody : ∀ b, (body b).AtMost p (kind b).toNat) {s : σ}
    {tr : List (Transition (Loop C R ε σ V) (Label C R ε V))} {l : Loop C R ε σ V}
    (hrun : Run (Step K body) (fresh s) tr l) : issued p l.history ≤ (called tr).countP kind := by
  have hsum : ∀ calls : List B, (calls.map fun b => (kind b).toNat).sum = calls.countP kind := by
    intro calls
    induction calls with
    | nil => rfl
    | cons b calls ih => cases hb : kind b <;> simp [hb, ih, Nat.add_comm]
  rw [← hsum]
  exact issued_le hbody hrun

end Loop

/-! ## Commands that fail -/

/-- What is replied to a command that may fail. -/
abbrev Fallible (R : C → Type) : C → Type := fun c => Option (R c)

/-- The program, given up with `fault` at the first command that fails. -/
def Prog.fallible (fault : Except ε α) : Prog C R ε α → Prog C (Fallible R) ε α
  | .ret a => .ret a
  | .raise e => .raise e
  | .call c k => .call c fun r => r.elim (.rethrow fault) fun r => (k r).fallible fault

/-- A store that does not fail. -/
def answered (exec : (c : C) → σ → R c × σ) (c : C) (s : σ) : Fallible R c × σ :=
  (some (exec c s).1, (exec c s).2)

/-- While the store answers, nothing is given up. -/
theorem Prog.run_fallible (exec : (c : C) → σ → R c × σ) (fault : Except ε α) (p : Prog C R ε α)
    (s : σ) : (p.fallible fault).run (answered exec) s = p.run exec s := by
  induction p generalizing s with
  | ret | raise => rfl
  | call c k ih => exact ih _ _

theorem Prog.AtMost.fallible {p : C → Bool} {n : ℕ} {q : Prog C R ε α} (hq : q.AtMost p n)
    (fault : Except ε α) : (q.fallible fault).AtMost p n := by
  induction q generalizing n with
  | ret | raise => trivial
  | call c k ih =>
    refine ⟨hq.1, fun r => ?_⟩
    cases r with
    | some r => exact ih r (hq.2 r)
    | none => cases fault <;> trivial

/-! ## What is kept -/

/-- A task that has been given up is in no state. -/
def Discipline.fallible (d : Discipline C R T) : Discipline C (Fallible R) (Option T) where
  allows t c := ∃ t' ∈ t, d.allows t' c
  next t c r := match t, r with
    | some t, some r => some (d.next t c r)
    | _, _ => none

/-- How a task may end, given how it may while the store answers. -/
def Ends (Q : Except ε α → T → Prop) (fault r : Except ε α) : Option T → Prop
  | some t => Q r t
  | none => r = fault

theorem Obeys.fallible {d : Discipline C R T} {Q : Except ε α → T → Prop} {t : T}
    {p : Prog C R ε α} (hp : Obeys d Q t p) (fault : Except ε α) :
    Obeys d.fallible (fun r t => Ends Q fault r t) (some t) (p.fallible fault) := by
  induction p generalizing t with
  | ret a => exact hp
  | raise e => exact hp
  | call c k ih =>
    refine ⟨⟨t, rfl, hp.1⟩, fun r => ?_⟩
    cases r with
    | some r => exact ih r (hp.2 r)
    | none => exact obeys_rethrow rfl

/-- A command of which `fails` holds may fail, whether it has been executed or not. -/
def Kernel.fallible (fails : C → Prop) (K : Kernel C R σ) : Kernel C (Fallible R) σ where
  answer i c s r t := match r with
    | some r => K.answer i c s r t
    | none => fails c ∧ (t = s ∨ ∃ r, K.answer i c s r t)
  suspend := K.suspend
  resume i c s r t := match r with
    | some r => K.resume i c s r t
    | none => fails c ∧ (t = s ∨ ∃ r, K.resume i c s r t)

/-- The commands that have been executed, given those that have been answered. -/
inductive Heard : List (Event C (Fallible R)) → List (Event C R) → Prop where
  | nil : Heard [] []
  | answered {h : List (Event C (Fallible R))} {h' : List (Event C R)} {c : C} {r : R c} :
      Heard h h' → Heard (h ++ [⟨c, some r⟩]) (h' ++ [⟨c, r⟩])
  | lost {h : List (Event C (Fallible R))} {h' : List (Event C R)} {c : C} :
      Heard h h' → Heard (h ++ [⟨c, none⟩]) h'
  | unheard {h : List (Event C (Fallible R))} {h' : List (Event C R)} {c : C} {r : R c} :
      Heard h h' → Heard (h ++ [⟨c, none⟩]) (h' ++ [⟨c, r⟩])

section heard
variable {h : List (Event C (Fallible R))} {h' : List (Event C R)}

/-- What has been executed has been answered, or has failed. -/
theorem Heard.issued_le (hheard : Heard h h') (p : C → Bool) : issued p h' ≤ issued p h := by
  induction hheard with
  | nil => exact le_rfl
  | answered _ ih | unheard _ ih =>
    rw [issued_snoc, issued_snoc]
    exact Nat.add_le_add_right ih _
  | lost _ ih =>
    rw [issued_snoc]
    exact ih.trans (Nat.le_add_right _ _)

end heard

/-- The tasks that have not been given up. -/
def alive (m : Multiset (Stance C (Option T))) : Multiset (Stance C T) :=
  m.filterMap fun x => x.state.map fun t => ⟨x.id, t, x.waits⟩

section alive
variable {m : Multiset (Stance C (Option T))} {i : ℕ} {t : T} {waits : Option C}

@[simp] theorem alive_cons_some : alive (⟨i, some t, waits⟩ ::ₘ m) = ⟨i, t, waits⟩ ::ₘ alive m :=
  Multiset.filterMap_cons_some _ _ _ rfl

@[simp] theorem alive_cons_none : alive (⟨i, none, waits⟩ ::ₘ m) = alive m :=
  Multiset.filterMap_cons_none _ _ rfl

theorem Idle.alive (hm : Idle m) : Idle (alive m) := by
  intro x hx
  obtain ⟨y, hy, hmap⟩ := (Multiset.mem_filterMap _ _).mp hx
  obtain ⟨t, -, rfl⟩ := Option.map_eq_some_iff.mp hmap
  exact hm y hy

end alive

variable {K : Kernel C R σ} {d : Discipline C R T} {init : B → T}
  {Q : (b : B) → Except ε (V b) → T → Prop}
  {I : List (Event C R) → Multiset (Stance C T) → σ → Prop} {fails : C → Prop}

/-- The invariant holds of what has been executed, and of the tasks that have not been given up. -/
def Despite (I : List (Event C R) → Multiset (Stance C T) → σ → Prop)
    (h : List (Event C (Fallible R))) (m : Multiset (Stance C (Option T))) (s : σ) : Prop :=
  ∃ h', Heard h h' ∧ I h' (alive m) s

/-- What tasks keep while the store answers they keep while it fails. -/
theorem maintains_fallible (hI : Maintains K d init Q I)
    (habandon : ∀ {h m s} (x), I h (x ::ₘ m) s → I h m s) (fault : (b : B) → Except ε (V b)) :
    Maintains (K.fallible fails) d.fallible (fun b => some (init b))
      (fun b r t => Ends (Q b) (fault b) r t) (Despite I) where
  start i b hidle hs := by
    obtain ⟨h', hheard, hinv⟩ := hs
    refine ⟨h', hheard, ?_⟩
    rw [alive_cons_some]
    exact hI.start i b hidle.alive hinv
  answer {h m s i t c r s'} hidle hs hallows hanswer := by
    obtain ⟨h', hheard, hinv⟩ := hs
    obtain ⟨t, rfl, hallows⟩ := hallows
    rw [alive_cons_some] at hinv
    cases r with
    | some r => exact ⟨_, hheard.answered, by
        simpa [Discipline.fallible] using hI.answer hidle.alive hinv hallows hanswer⟩
    | none =>
      obtain ⟨-, rfl | ⟨r, hanswer⟩⟩ := hanswer
      · exact ⟨h', hheard.lost, by simpa [Discipline.fallible] using habandon _ hinv⟩
      · have hdone := habandon _ (hI.answer hidle.alive hinv hallows hanswer)
        exact ⟨_, hheard.unheard, by simpa [Discipline.fallible] using hdone⟩
  suspend hidle hs hallows hsuspend := by
    obtain ⟨h', hheard, hinv⟩ := hs
    obtain ⟨t, rfl, hallows⟩ := hallows
    rw [alive_cons_some] at hinv
    refine ⟨h', hheard, ?_⟩
    rw [alive_cons_some]
    exact hI.suspend hidle.alive hinv hallows hsuspend
  resume {h m s i t c r s'} hidle hs hallows hresume := by
    obtain ⟨h', hheard, hinv⟩ := hs
    obtain ⟨t, rfl, hallows⟩ := hallows
    rw [alive_cons_some] at hinv
    cases r with
    | some r => exact ⟨_, hheard.answered, by
        simpa [Discipline.fallible] using hI.resume hidle.alive hinv hallows hresume⟩
    | none =>
      obtain ⟨-, rfl | ⟨r, hresume⟩⟩ := hresume
      · exact ⟨h', hheard.lost, by simpa [Discipline.fallible] using habandon _ hinv⟩
      · have hdone := habandon _ (hI.resume hidle.alive hinv hallows hresume)
        exact ⟨_, hheard.unheard, by simpa [Discipline.fallible] using hdone⟩
  finish {h m s i b t r} hidle hs hends := by
    obtain ⟨h', hheard, hinv⟩ := hs
    refine ⟨h', hheard, ?_⟩
    cases t with
    | some t =>
      rw [alive_cons_some] at hinv
      exact hI.finish hidle.alive hinv hends
    | none => rwa [alive_cons_none] at hinv

end BaseWebService.Library
