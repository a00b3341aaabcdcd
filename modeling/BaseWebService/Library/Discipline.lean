import Mathlib.Data.Multiset.Count
import Mathlib.Data.Multiset.Filter
import BaseWebService.Library.EventLoop

/-!
# Disciplines of tasks

Tasks that do wait for each other are followed by what they have done so far. A `Discipline` says
which commands are allowed from a state and where each reply leads; `Obeys` is a program that keeps
to it. `Loop.maintained` is the rule of this module: if every body obeys, then an invariant of the
store and of the states of all unfinished tasks is kept by every run, once each kind of step keeps
it.

## Main definitions

* `Discipline`, `Obeys` : what a task may do, and a program that does no more.
* `Discipline.ofAsks` : the discipline of a flowchart.
* `Prog.translate` : a program whose commands are programs over another store.
* `Stance`, `Loop.Matched` : where each unfinished task of a loop stands.
* `Maintains` : what each step has to keep.
-/

namespace BaseWebService.Library

variable {C C' : Type} {R : C → Type} {R' : C' → Type} {ε ε' α β σ B T : Type} {V : B → Type}

/-- Which commands are allowed from a state of a task, and the state after a reply. -/
structure Discipline (C : Type) (R : C → Type) (T : Type) where
  allows : T → C → Prop
  next : T → (c : C) → R c → T

/-- From `t` the program issues allowed commands only, and `Q` holds of how it ends and of the state
it ends in. -/
def Obeys (d : Discipline C R T) (Q : Except ε α → T → Prop) : T → Prog C R ε α → Prop
  | t, .ret a => Q (.ok a) t
  | t, .raise e => Q (.error e) t
  | t, .call c k => d.allows t c ∧ ∀ r, Obeys d Q (d.next t c r) (k r)

section obeys
variable {d : Discipline C R T} {Q : Except ε α → T → Prop} {t : T}

theorem Obeys.result {p : Prog C R ε α} {r : Except ε α} (hp : Obeys d Q t p)
    (hr : p.result? = some r) : Q r t := by
  cases p with
  | ret a =>
    obtain rfl := Option.some_inj.mp hr
    exact hp
  | raise e =>
    obtain rfl := Option.some_inj.mp hr
    exact hp
  | call c k => simp [Prog.result?] at hr

theorem Obeys.mono {Q' : Except ε α → T → Prop} {p : Prog C R ε α} (hp : Obeys d Q t p)
    (hQ : ∀ r t, Q r t → Q' r t) : Obeys d Q' t p := by
  induction p generalizing t with
  | ret a => exact hQ _ _ hp
  | raise e => exact hQ _ _ hp
  | call c k ih => exact ⟨hp.1, fun r => ih r (hp.2 r)⟩

theorem Obeys.bind {Q' : Except ε β → T → Prop} {p : Prog C R ε α} {f : α → Prog C R ε β}
    (hp : Obeys d Q t p) (hok : ∀ a t, Q (.ok a) t → Obeys d Q' t (f a))
    (herror : ∀ e t, Q (.error e) t → Q' (.error e) t) : Obeys d Q' t (p >>= f) := by
  induction p generalizing t with
  | ret a => exact hok a t hp
  | raise e => exact herror e t hp
  | call c k ih => exact ⟨hp.1, fun r => ih r (hp.2 r)⟩

theorem Obeys.handle {Q' : Except ε α → T → Prop} {p : Prog C R ε α} {f : ε → Prog C R ε α}
    (hp : Obeys d Q t p) (hok : ∀ a t, Q (.ok a) t → Q' (.ok a) t)
    (herror : ∀ e t, Q (.error e) t → Obeys d Q' t (f e)) : Obeys d Q' t (p.handle f) := by
  induction p generalizing t with
  | ret a => exact hok a t hp
  | raise e => exact herror e t hp
  | call c k ih => exact ⟨hp.1, fun r => ih r (hp.2 r)⟩

theorem Obeys.attempt {p : Prog C R ε α} (hp : Obeys d Q t p) :
    Obeys d (fun r t' => ∃ r', r = .ok r' ∧ Q r' t') t (p.attempt : Prog C R ε (Except ε α)) := by
  induction p generalizing t with
  | ret a => exact ⟨.ok a, rfl, hp⟩
  | raise e => exact ⟨.error e, rfl, hp⟩
  | call c k ih => exact ⟨hp.1, fun r => ih r (hp.2 r)⟩

theorem obeys_rethrow {r : Except ε α} (hr : Q r t) : Obeys d Q t (Prog.rethrow r) := by
  cases r with
  | ok a => exact hr
  | error e => exact hr

/-- What is raised on the way out takes the place of how the block has ended. -/
theorem Obeys.tryFinally {Q' : Except ε α → T → Prop} {p : Prog C R ε α} {q : Prog C R ε Unit}
    (hp : Obeys d Q t p) (hq : ∀ r t', Q r t' → Obeys d (fun r' t'' => match r' with
      | .ok _ => Q' r t''
      | .error e => Q' (.error e) t'') t' q) : Obeys d Q' t (p.tryFinally q) := by
  refine hp.attempt.bind (fun ended t' h => ?_) fun e t' h => ?_
  · obtain ⟨_, hended, hQ⟩ := h
    obtain rfl := Except.ok.inj hended
    exact (hq ended t' hQ).bind (fun _ _ h' => obeys_rethrow h') fun _ _ h' => h'
  · obtain ⟨_, hended, -⟩ := h
    cases hended

end obeys

/-! ## Programs over another store -/

/-- Each command of the program is the program `f` makes of it. -/
def Prog.translate (f : (c : C) → Prog C' R' ε' (R c)) (g : ε → ε') :
    Prog C R ε α → Prog C' R' ε' α
  | .ret a => .ret a
  | .raise e => .raise (g e)
  | .call c k => f c >>= fun r => (k r).translate f g

/-- Commands that leave the state of the task as it was make up programs that do. -/
theorem obeys_translate {d : Discipline C' R' T} {t : T} {f : (c : C) → Prog C' R' ε' (R c)}
    {g : ε → ε'} {E : ε' → T → Prop}
    (hf : ∀ c, Obeys d (fun r t' => match r with
      | .ok _ => t' = t
      | .error e => E e t') t (f c))
    (hg : ∀ e, E (g e) t) (p : Prog C R ε α) :
    Obeys d (fun r t' => match r with
      | .ok _ => t' = t
      | .error e => E e t') t (p.translate f g) := by
  induction p with
  | ret a => exact rfl
  | raise e => exact hg e
  | call c k ih =>
    refine (hf c).bind (fun r t' ht => ?_) fun e t' he => he
    subst ht
    exact ih r

/-! ## Flowcharts as disciplines -/

/-- The command of a point, and where each reply leads. -/
def Node.asks : Node C R ε α T → Option ((c : C) × (R c → T))
  | .call c next => some ⟨c, next⟩
  | _ => none

section asks
variable (asks : T → Option ((c : C) × (R c → T)))

/-- From each point the one command that it asks for is allowed. -/
noncomputable def Discipline.ofAsks : Discipline C R T where
  allows t c := ∃ next, asks t = some ⟨c, next⟩
  next t c r := open Classical in
    if h : ∃ next, asks t = some ⟨c, next⟩ then h.choose r else t

variable {asks} {t : T} {c : C} {next : R c → T}

theorem next_ofAsks (h : asks t = some ⟨c, next⟩) (r : R c) :
    (Discipline.ofAsks asks).next t c r = next r := by
  have hex : ∃ next, asks t = some ⟨c, next⟩ := ⟨next, h⟩
  have hnext : hex.choose = next := by
    have heq := Option.some.inj (hex.choose_spec.symm.trans h)
    exact eq_of_heq (Sigma.mk.inj heq).2
  rw [← hnext]
  exact dif_pos hex

/-- A program that follows a flowchart obeys it, and ends at a point where it ends. -/
theorem Follows.obeys {P : Type} {flow : Flow C R ε α P} (f : P → T)
    (hf : ∀ p, asks (f p) = ((flow p).map f).asks) {prog : Prog C R ε α} {p : P}
    (h : Follows flow prog p) :
    Obeys (.ofAsks asks) (fun r t => ∃ q, t = f q ∧ (flow q).result = some r) (f p) prog := by
  induction prog generalizing p with
  | ret a => exact ⟨p, rfl, by rw [h]; rfl⟩
  | raise e => exact ⟨p, rfl, by rw [h]; rfl⟩
  | call c k ih =>
    obtain ⟨next, hflow, hnext⟩ := h
    have hasks : asks (f p) = some ⟨c, f ∘ next⟩ := by
      rw [hf, hflow]
      rfl
    refine ⟨⟨_, hasks⟩, fun r => ?_⟩
    rw [next_ofAsks hasks]
    exact ih r (hnext r)

end asks

/-! ## Loops of disciplined tasks -/

/-- Related lists are cut where one of them is. -/
theorem forall₂_append_cons {γ : Type} {S : α → γ → Prop} {a : α} {before after : List α}
    {l : List γ} (h : List.Forall₂ S (before ++ a :: after) l) :
    ∃ before' c after', l = before' ++ c :: after' ∧ List.Forall₂ S before before' ∧ S a c ∧
      List.Forall₂ S after after' := by
  induction before generalizing l with
  | nil =>
    obtain ⟨c, after', hac, hafter, rfl⟩ := List.forall₂_cons_left_iff.mp h
    exact ⟨[], c, after', rfl, .nil, hac, hafter⟩
  | cons a' before ih =>
    obtain ⟨c', l', hac', hl', rfl⟩ := List.forall₂_cons_left_iff.mp h
    obtain ⟨before', c, after', rfl, hbefore, hac, hafter⟩ := ih hl'
    exact ⟨c' :: before', c, after', rfl, .cons hac' hbefore, hac, hafter⟩

/-- Where a task stands: its state, and the command it waits for, if it waits. -/
structure Stance (C T : Type) where
  id : ℕ
  state : T
  waits : Option C

/-- The command a program has come to. -/
def Prog.command : Prog C R ε α → Option C
  | .call c _ => some c
  | _ => none

/-- Every task of the collection waits. -/
def Idle (m : Multiset (Stance C T)) : Prop := ∀ x ∈ m, x.waits ≠ none

/-- What each kind of step has to keep, for tasks that start in the state `init` says, obey `d` and
end as `Q` says. -/
structure Maintains (K : Kernel C R σ) (d : Discipline C R T) (init : B → T)
    (Q : (b : B) → Except ε (V b) → T → Prop)
    (I : List (Event C R) → Multiset (Stance C T) → σ → Prop) : Prop where
  start : ∀ {h m s} (i b), Idle m → I h m s → I h (⟨i, init b, none⟩ ::ₘ m) s
  answer : ∀ {h m s i t c r s'}, Idle m → I h (⟨i, t, none⟩ ::ₘ m) s → d.allows t c →
    K.answer i c s r s' → I (h ++ [⟨c, r⟩]) (⟨i, d.next t c r, none⟩ ::ₘ m) s'
  suspend : ∀ {h m s i t c s'}, Idle m → I h (⟨i, t, none⟩ ::ₘ m) s → d.allows t c →
    K.suspend i c s s' → I h (⟨i, t, some c⟩ ::ₘ m) s'
  resume : ∀ {h m s i t c r s'}, Idle m → I h (⟨i, t, some c⟩ ::ₘ m) s → d.allows t c →
    K.resume i c s r s' → I (h ++ [⟨c, r⟩]) (⟨i, d.next t c r, none⟩ ::ₘ m) s'
  finish : ∀ {h m s i b t r}, Idle m → I h (⟨i, t, none⟩ ::ₘ m) s → Q b r t → I h m s

namespace Loop

variable (d : Discipline C R T) (Q : (b : B) → Except ε (V b) → T → Prop)

/-- The task stands where the stance says. -/
structure Stands (task : LoopTask C R ε V) (x : Stance C T) : Prop where
  id : x.id = task.id
  obeys : Obeys d (Q task.called) x.state task.rest

/-- The stances are those of the tasks that have not ended. -/
structure Matched (l : Loop C R ε σ V) (running waiting : List (Stance C T)) : Prop where
  running : List.Forall₂ (fun task x => Stands d Q task x ∧ x.waits = none)
    l.running.toList running
  waiting : List.Forall₂ (fun task x => Stands d Q task x ∧ x.waits = task.rest.command ∧
    x.waits ≠ none) l.waiting waiting

variable {d Q} {K : Kernel C R σ} {body : (b : B) → Prog C R ε (V b)} {init : B → T}
  {I : List (Event C R) → Multiset (Stance C T) → σ → Prop}

/-- The task a stance is of. -/
theorem Matched.exists_task {l : Loop C R ε σ V} {running waiting : List (Stance C T)}
    (h : Matched d Q l running waiting) {x : Stance C T} (hx : x ∈ waiting) :
    ∃ task ∈ l.waiting, Stands d Q task x ∧ x.waits = task.rest.command ∧ x.waits ≠ none := by
  obtain ⟨n, hn, rfl⟩ := List.getElem_of_mem hx
  have hn' : n < l.waiting.length := h.waiting.length_eq ▸ hn
  exact ⟨_, List.getElem_mem hn', (List.forall₂_iff_get.mp h.waiting).2 n hn' hn⟩

/-- The stance of a task. -/
theorem Matched.exists_stance {l : Loop C R ε σ V} {running waiting : List (Stance C T)}
    (h : Matched d Q l running waiting) {task : LoopTask C R ε V} (htask : task ∈ l.waiting) :
    ∃ x ∈ waiting, Stands d Q task x ∧ x.waits = task.rest.command ∧ x.waits ≠ none := by
  obtain ⟨n, hn, rfl⟩ := List.getElem_of_mem htask
  have hn' : n < waiting.length := h.waiting.length_eq ▸ hn
  exact ⟨_, List.getElem_mem hn', (List.forall₂_iff_get.mp h.waiting).2 n hn hn'⟩

theorem Matched.idle {l : Loop C R ε σ V} {running waiting : List (Stance C T)}
    (h : Matched d Q l running waiting) : Idle (waiting : Multiset (Stance C T)) := by
  intro x hx
  obtain ⟨-, -, -, -, hwaits⟩ := h.exists_task (Multiset.mem_coe.mp hx)
  exact hwaits

/-- Counting tasks by what they wait for. -/
theorem Matched.countP_eq {l : Loop C R ε σ V} {running waiting : List (Stance C T)}
    (h : Matched d Q l running waiting) (p : Option C → Bool) :
    l.waiting.countP (fun task => p task.rest.command) = waiting.countP fun x => p x.waits := by
  obtain ⟨-, hwaiting⟩ := h
  generalize l.waiting = tasks at hwaiting
  induction hwaiting with
  | nil => rfl
  | cons hx _ ih => simp only [List.countP_cons, ih, hx.2.1]

/-- The invariant holds of the tasks that have not ended, wherever they stand. -/
def Keeps (d : Discipline C R T) (Q : (b : B) → Except ε (V b) → T → Prop)
    (I : List (Event C R) → Multiset (Stance C T) → σ → Prop) (l : Loop C R ε σ V) : Prop :=
  ∃ running waiting, Matched d Q l running waiting ∧
    I l.history ((running : Multiset (Stance C T)) + waiting) l.store

/-- The running task, and where it stands. -/
theorem Matched.running_eq {l : Loop C R ε σ V} {running waiting : List (Stance C T)}
    (h : Matched d Q l running waiting) {i : ℕ} {b : B} {p : Prog C R ε (V b)}
    (hrunning : l.running = some ⟨i, b, p⟩) :
    ∃ t, running = [⟨i, t, none⟩] ∧ Obeys d (Q b) t p := by
  have hmatch := h.running
  rw [hrunning, Option.toList_some, List.forall₂_cons_left_iff] at hmatch
  obtain ⟨⟨j, t, waits⟩, rest, ⟨⟨rfl, hobeys⟩, rfl⟩, hrest, rfl⟩ := hmatch
  obtain rfl := List.forall₂_nil_left_iff.mp hrest
  exact ⟨t, rfl, hobeys⟩

theorem Matched.running_nil {l : Loop C R ε σ V} {running waiting : List (Stance C T)}
    (h : Matched d Q l running waiting) (hrunning : l.running = none) : running = [] := by
  have hmatch := h.running
  rw [hrunning] at hmatch
  exact List.forall₂_nil_left_iff.mp hmatch

theorem Keeps.step {l l' : Loop C R ε σ V} {x : Label C R ε V}
    (hbody : ∀ b, Obeys d (Q b) (init b) (body b)) (hI : Maintains K d init Q I)
    (hl : Keeps d Q I l) (hstep : Step K body l x l') : Keeps d Q I l' := by
  obtain ⟨running, waiting, hmatch, hinv⟩ := hl
  have hidle := hmatch.idle
  cases hstep with
  | @start b hnone =>
    obtain rfl := hmatch.running_nil hnone
    refine ⟨[⟨l.nextId, init b, none⟩], waiting, ⟨?_, hmatch.waiting⟩, ?_⟩
    · exact .cons ⟨⟨rfl, hbody b⟩, rfl⟩ .nil
    · exact hI.start l.nextId b hidle (by simpa using hinv)
  | @answer i b c k r t hrunning hanswer =>
    obtain ⟨u, rfl, hobeys⟩ := hmatch.running_eq hrunning
    refine ⟨[⟨i, d.next u c r, none⟩], waiting, ⟨?_, hmatch.waiting⟩, ?_⟩
    · exact .cons ⟨⟨rfl, hobeys.2 r⟩, rfl⟩ .nil
    · exact hI.answer hidle (by simpa using hinv) hobeys.1 hanswer
  | @suspend i b c k t hrunning hsuspend =>
    obtain ⟨u, rfl, hobeys⟩ := hmatch.running_eq hrunning
    refine ⟨[], waiting ++ [⟨i, u, some c⟩], ⟨.nil, ?_⟩, ?_⟩
    · exact List.rel_append hmatch.waiting (.cons ⟨⟨rfl, hobeys⟩, rfl, by simp⟩ .nil)
    · have hkept := hI.suspend hidle (by simpa using hinv) hobeys.1 hsuspend
      have hperm : ((⟨i, u, some c⟩ : Stance C T) :: waiting).Perm (waiting ++ [⟨i, u, some c⟩]) :=
        (List.perm_append_singleton _ _).symm
      rw [Multiset.cons_coe, Multiset.coe_eq_coe.mpr hperm] at hkept
      simpa using hkept
  | @resume i b c k r t before after hnone hwaiting hresume =>
    obtain rfl := hmatch.running_nil hnone
    have hmatch' := hmatch.waiting
    rw [hwaiting] at hmatch'
    obtain ⟨before', ⟨j, u, waits⟩, after', rfl, hbefore, ⟨⟨hid, hobeys⟩, hwaits, -⟩, hafter⟩ :=
      forall₂_append_cons hmatch'
    obtain rfl : j = i := hid
    obtain rfl : waits = some c := hwaits
    refine ⟨[⟨j, d.next u c r, none⟩], before' ++ after', ⟨?_, ?_⟩, ?_⟩
    · exact .cons ⟨⟨rfl, hobeys.2 r⟩, rfl⟩ .nil
    · exact List.rel_append hbefore hafter
    · have hperm : (before' ++ ⟨j, u, some c⟩ :: after').Perm
          (⟨j, u, some c⟩ :: (before' ++ after')) := List.perm_middle
      have hinv' : I l.history ((⟨j, u, some c⟩ : Stance C T) ::ₘ
          ((before' ++ after' : List (Stance C T)) : Multiset (Stance C T))) l.store := by
        rw [Multiset.cons_coe, ← Multiset.coe_eq_coe.mpr hperm]
        simpa using hinv
      have hidle' : Idle ((before' ++ after' : List (Stance C T)) : Multiset (Stance C T)) :=
        fun x hx => hidle x (by
          rw [Multiset.coe_eq_coe.mpr hperm]
          exact List.mem_cons_of_mem _ hx)
      simpa using hI.resume hidle' hinv' hobeys.1 hresume
  | @finish i b p r hrunning hresult =>
    obtain ⟨u, rfl, hobeys⟩ := hmatch.running_eq hrunning
    exact ⟨[], waiting, ⟨.nil, hmatch.waiting⟩,
      by simpa using hI.finish hidle (by simpa using hinv) (hobeys.result hresult)⟩

/-- What each kind of step keeps holds in every run. -/
theorem maintained (hbody : ∀ b, Obeys d (Q b) (init b) (body b)) (hI : Maintains K d init Q I)
    {s₀ : σ} (hinit : I [] 0 s₀) {tr : List (Transition (Loop C R ε σ V) (Label C R ε V))}
    {l : Loop C R ε σ V} (hrun : Run (Step K body) (fresh s₀) tr l) : Keeps d Q I l :=
  hrun.invariant (fun _ _ _ hl hstep => hl.step hbody hI hstep)
    ⟨[], [], ⟨.nil, .nil⟩, hinit⟩

/-- A task whose commands can all be answered can be brought to its end, and `J` of its state and of
the store is kept on the way. -/
theorem exists_finish {J : T → σ → Prop} {i : ℕ} {b : B}
    (hJ : ∀ t c s, d.allows t c → J t s → ∃ r s', K.answer i c s r s' ∧ J (d.next t c r) s')
    {p : Prog C R ε (V b)} {l : Loop C R ε σ V} {t : T} (hrunning : l.running = some ⟨i, b, p⟩)
    (hp : Obeys d (Q b) t p) (hs : J t l.store) :
    ∃ tr l' t' r, Run (Step K body) l tr l' ∧ l'.running = none ∧ l'.waiting = l.waiting ∧
      Q b r t' ∧ J t' l'.store := by
  induction p generalizing l t with
  | ret a => exact ⟨_, _, t, .ok a, .single (.finish hrunning rfl), rfl, rfl, hp, hs⟩
  | raise e => exact ⟨_, _, t, .error e, .single (.finish hrunning rfl), rfl, rfl, hp, hs⟩
  | call c k ih =>
    obtain ⟨r, s', hanswer, hs'⟩ := hJ t c l.store hp.1 hs
    obtain ⟨tr, l', t', r', hrun, hl'⟩ := ih r
      (l := { l with store := s', history := l.history ++ [⟨c, r⟩], running := some ⟨i, b, k r⟩ })
      rfl (hp.2 r) hs'
    exact ⟨_, l', t', r', .cons (.answer hrunning hanswer) hrun, hl'⟩

/-- A call that no other comes between: its sequential meaning is one of the runs. -/
theorem exists_call {exec : (c : C) → σ → R c × σ} {l : Loop C R ε σ V}
    (hexec : ∀ c s, K.answer l.nextId c s (exec c s).1 (exec c s).2) (hidle : l.running = none)
    (b : B) : ∃ tr m l', Run (Step K body) l tr m ∧
      Step K body m (.finish l.nextId b ((body b).run exec l.store).1) l' ∧
      l'.store = ((body b).run exec l.store).2 ∧ l'.running = none := by
  suffices h : ∀ (p : Prog C R ε (V b)) (m : Loop C R ε σ V),
      m.running = some ⟨l.nextId, b, p⟩ → ∃ tr m' l', Run (Step K body) m tr m' ∧
        Step K body m' (.finish l.nextId b (p.run exec m.store).1) l' ∧
        l'.store = (p.run exec m.store).2 ∧ l'.running = none by
    obtain ⟨tr, m, l', hrun, hl'⟩ := h (body b)
      { l with running := some ⟨l.nextId, b, body b⟩, nextId := l.nextId + 1 } rfl
    exact ⟨_, m, l', .cons (.start hidle) hrun, hl'⟩
  intro p
  induction p with
  | ret | raise => exact fun m hm => ⟨[], m, _, .nil, .finish hm rfl, rfl, rfl⟩
  | call c k ih =>
    intro m hm
    obtain ⟨tr, m', l', hrun, hl'⟩ := ih (exec c m.store).1
      ⟨(exec c m.store).2, m.history ++ [⟨c, (exec c m.store).1⟩],
        some ⟨l.nextId, b, k (exec c m.store).1⟩, m.waiting, m.nextId⟩ rfl
    exact ⟨_, m', l', .cons (.answer hm (hexec c m.store)) hrun, hl'⟩

/-- How a call ends is how its discipline says. -/
theorem Keeps.finish {l l' : Loop C R ε σ V} {i : ℕ} {b : B} {r : Except ε (V b)}
    (hl : Keeps d Q I l) (hstep : Step K body l (.finish i b r) l') :
    ∃ m t, Idle m ∧ I l.history (⟨i, t, none⟩ ::ₘ m) l.store ∧ Q b r t := by
  obtain ⟨running, waiting, hmatch, hinv⟩ := hl
  cases hstep with
  | finish hrunning hresult =>
    obtain ⟨t, rfl, hobeys⟩ := hmatch.running_eq hrunning
    exact ⟨waiting, t, hmatch.idle, by simpa using hinv, hobeys.result hresult⟩

end Loop

end BaseWebService.Library
