import BaseWebService.Library.Prog

/-!
# Generators

A generator is a program that may also yield, and is resumed with nothing or with an exception that
is raised where it yielded. `asyncWith` drives one as the context manager that
`contextlib.asynccontextmanager` makes of it; `asyncFor` iterates over one, and forwards no
exception to it.
-/

namespace BaseWebService.Library

/-- How a generator is resumed at a `yield`. -/
inductive Resume (ε : Type) where
  | next
  | throw (e : ε)

inductive Gen (C : Type) (R : C → Type) (Y ε α : Type) where
  | ret (a : α)
  | raise (e : ε)
  | call (c : C) (k : R c → Gen C R Y ε α)
  | yield (y : Y) (k : Resume ε → Gen C R Y ε α)

namespace Gen

variable {C : Type} {R : C → Type} {Y Z ε α β σ : Type}

def bind : Gen C R Y ε α → (α → Gen C R Y ε β) → Gen C R Y ε β
  | .ret a, f => f a
  | .raise e, _ => .raise e
  | .call c k, f => .call c fun r => (k r).bind f
  | .yield y k, f => .yield y fun r => (k r).bind f

instance : Monad (Gen C R Y ε) where
  pure := .ret
  bind := .bind

def throw (e : ε) : Gen C R Y ε α := .raise e

/-- The generator that issues `c` and returns its reply. -/
def perform (c : C) : Gen C R Y ε (R c) := .call c .ret

/-- `yield y`. -/
def yieldOnce (y : Y) : Gen C R Y ε Unit :=
  .yield y fun
    | .next => .ret ()
    | .throw e => .raise e

/-- How the generator ends. -/
def attempt : Gen C R Y ε α → Gen C R Y ε (Except ε α)
  | .ret a => .ret (.ok a)
  | .raise e => .ret (.error e)
  | .call c k => .call c fun r => (k r).attempt
  | .yield y k => .yield y fun r => (k r).attempt

def rethrow : Except ε α → Gen C R Y ε α
  | .ok a => .ret a
  | .error e => .raise e

/-- `try: p except ...: h(e)`, where `catches` says which exceptions the clause is for. -/
def tryExcept (catches : ε → Bool) (p : Gen C R Y ε α) (h : ε → Gen C R Y ε α) : Gen C R Y ε α :=
  p.attempt.bind fun
    | .ok a => .ret a
    | .error e => if catches e then h e else .raise e

/-- `try: p finally: q`. -/
def tryFinally (p : Gen C R Y ε α) (q : Gen C R Y ε Unit) : Gen C R Y ε α :=
  p.attempt.bind fun r => q.bind fun _ => rethrow r

/-- A program is a generator that never yields. -/
def ofProg : Prog C R ε α → Gen C R Y ε α
  | .ret a => .ret a
  | .raise e => .raise e
  | .call c k => .call c fun r => ofProg (k r)

/-- `await generator.__anext__()`: run to the next `yield`, or to the end. -/
def advance : Gen C R Y ε α → Prog C R ε (α ⊕ Y × (Resume ε → Gen C R Y ε α))
  | .ret a => .ret (.inl a)
  | .raise e => .raise e
  | .call c k => .call c fun r => (k r).advance
  | .yield y k => .ret (.inr (y, k))

/-- What `asynccontextmanager` raises where a generator yields not at all, or again. -/
structure Misuse (ε : Type) where
  didNotYield : ε
  didNotStop : ε

/-- `async with manager() as y: body(y)` for the manager that `asynccontextmanager` makes of a
generator. The result is `none` where the generator swallows the exception of the body. -/
def asyncWith (misuse : Misuse ε) (manager : Gen C R Y ε Unit) (body : Y → Gen C R Z ε α) :
    Gen C R Z ε (Option α) :=
  (ofProg manager.advance).bind fun
    | .inl _ => .raise misuse.didNotYield
    | .inr (y, k) => (body y).attempt.bind fun
      | .ok a => (ofProg (k .next).advance).bind fun
        | .inl _ => .ret (some a)
        | .inr _ => .raise misuse.didNotStop
      | .error e => (ofProg (k (.throw e)).advance).bind fun
        | .inl _ => .ret none
        | .inr _ => .raise misuse.didNotStop

/-- `async for y in generator: body(y)`. An exception of the body leaves the loop and the generator
where they are. -/
def asyncFor (body : Y → Gen C R Z ε Unit) : Gen C R Y ε Unit → Gen C R Z ε Unit
  | .ret a => .ret a
  | .raise e => .raise e
  | .call c k => .call c fun r => asyncFor body (k r)
  | .yield y k => (body y).bind fun _ => asyncFor body (k .next)

/-- A generator with nothing to yield is a program. -/
def toProg : Gen C R Empty ε α → Prog C R ε α
  | .ret a => .ret a
  | .raise e => .raise e
  | .call c k => .call c fun r => (k r).toProg
  | .yield y _ => y.elim

@[simp] theorem ret_bind (a : α) (f : α → Gen C R Y ε β) : (Gen.ret a).bind f = f a := rfl
@[simp] theorem raise_bind (e : ε) (f : α → Gen C R Y ε β) : (Gen.raise e).bind f = .raise e := rfl

theorem bind_assoc {γ : Type} (g : Gen C R Y ε α) (f : α → Gen C R Y ε β)
    (f' : β → Gen C R Y ε γ) : (g.bind f).bind f' = g.bind fun a => (f a).bind f' := by
  induction g with
  | ret | raise => rfl
  | call c k ih => exact congrArg (Gen.call c) (funext ih)
  | yield y k ih => exact congrArg (Gen.yield y) (funext ih)

/-! ## How a generator ends -/

section ends
variable (exec : (c : C) → σ → R c × σ)

/-- Run from `s`, the generator ends with the result and without another `yield`. -/
def Ends : Gen C R Y ε α → σ → Except ε α → σ → Prop
  | .ret a, s, r, t => r = .ok a ∧ t = s
  | .raise e, s, r, t => r = .error e ∧ t = s
  | .call c k, s, r, t => Ends (k (exec c s).1) (exec c s).2 r t
  | .yield _ _, _, _, _ => False

/-- The same, and `I` holds of every state on the way. -/
def EndsIn (I : σ → Prop) : Gen C R Y ε α → σ → Except ε α → σ → Prop
  | .ret a, s, r, t => I s ∧ r = .ok a ∧ t = s
  | .raise e, s, r, t => I s ∧ r = .error e ∧ t = s
  | .call c k, s, r, t => I s ∧ EndsIn I (k (exec c s).1) (exec c s).2 r t
  | .yield _ _, _, _, _ => False

/-- Run from `s`, the generator comes to a `yield` of `y`, to be resumed by `k`; `I` holds of every
state on the way. -/
def Yields (I : σ → Prop) :
    Gen C R Y ε α → σ → Y → (Resume ε → Gen C R Y ε α) → σ → Prop
  | .ret _, _, _, _, _ => False
  | .raise _, _, _, _, _ => False
  | .call c k', s, y, k, t => I s ∧ Yields I (k' (exec c s).1) (exec c s).2 y k t
  | .yield y' k', s, y, k, t => I s ∧ y' = y ∧ k' = k ∧ t = s

variable {exec} {I : σ → Prop} {g : Gen C R Y ε α} {s t u : σ} {r : Except ε α} {y : Y}
  {k : Resume ε → Gen C R Y ε α}

theorem endsIn_true : EndsIn exec (fun _ => True) g s r t ↔ Ends exec g s r t := by
  induction g generalizing s with
  | ret | raise => exact iff_of_eq (true_and _)
  | call c k ih => exact (iff_of_eq (true_and _)).trans (ih _)
  | yield => exact Iff.rfl

theorem EndsIn.stop (h : EndsIn exec I g s r t) : I t := by
  induction g generalizing s with
  | ret | raise =>
    obtain ⟨hs, -, rfl⟩ := h
    exact hs
  | call c k ih => exact ih _ h.2
  | yield => exact h.elim

theorem EndsIn.ret (hs : I s) (a : α) :
    EndsIn exec I (.ret a : Gen C R Y ε α) s (.ok a) s := ⟨hs, rfl, rfl⟩

theorem EndsIn.raise (hs : I s) (e : ε) :
    EndsIn exec I (.raise e : Gen C R Y ε α) s (.error e) s := ⟨hs, rfl, rfl⟩

theorem EndsIn.bind_ok {a : α} {f : α → Gen C R Y ε β} {r : Except ε β}
    (h : EndsIn exec I g s (.ok a) t) (hf : EndsIn exec I (f a) t r u) :
    EndsIn exec I (g.bind f) s r u := by
  induction g generalizing s with
  | ret b =>
    obtain ⟨-, hb, rfl⟩ := h
    obtain rfl := Except.ok.inj hb
    exact hf
  | raise => cases h.2.1
  | call c k ih => exact ⟨h.1, ih _ h.2⟩
  | yield => exact h.elim

theorem EndsIn.bind_error {e : ε} {f : α → Gen C R Y ε β} (h : EndsIn exec I g s (.error e) t) :
    EndsIn exec I (g.bind f) s (.error e) t := by
  induction g generalizing s with
  | ret => cases h.2.1
  | raise e' =>
    obtain ⟨hs, he, rfl⟩ := h
    obtain rfl := Except.error.inj he
    exact .raise hs _
  | call c k ih => exact ⟨h.1, ih _ h.2⟩
  | yield => exact h.elim

/-- A result that is not used. -/
theorem EndsIn.discard (h : EndsIn exec I g s r t) :
    EndsIn exec I (g.bind fun _ => .ret ()) s (r.map fun _ => ()) t := by
  cases r with
  | ok a => exact h.bind_ok (.ret h.stop ())
  | error e => exact h.bind_error

theorem EndsIn.attempt (h : EndsIn exec I g s r t) : EndsIn exec I g.attempt s (.ok r) t := by
  induction g generalizing s with
  | ret | raise =>
    obtain ⟨hs, rfl, rfl⟩ := h
    exact .ret hs _
  | call c k ih => exact ⟨h.1, ih _ h.2⟩
  | yield => exact h.elim

theorem EndsIn.rethrow (hs : I s) : ∀ r : Except ε α,
    EndsIn exec I (Gen.rethrow r : Gen C R Y ε α) s r s
  | .ok a => .ret hs a
  | .error e => .raise hs e

/-- The last clause runs in any case, and the result is that of the body. -/
theorem EndsIn.tryFinally {q : Gen C R Y ε Unit} (h : EndsIn exec I g s r t)
    (hq : EndsIn exec I q t (.ok ()) u) : EndsIn exec I (Gen.tryFinally g q) s r u :=
  h.attempt.bind_ok (hq.bind_ok (.rethrow hq.stop r))

theorem EndsIn.advance (h : EndsIn exec I g s r t) :
    EndsIn exec I (Gen.ofProg g.advance : Gen C R Z ε _) s (r.map .inl) t := by
  induction g generalizing s with
  | ret | raise =>
    obtain ⟨hs, rfl, rfl⟩ := h
    exact ⟨hs, rfl, rfl⟩
  | call c k ih => exact ⟨h.1, ih _ h.2⟩
  | yield => exact h.elim

theorem EndsIn.toProg {g : Gen C R Empty ε α} (h : EndsIn exec I g s r t) :
    g.toProg.run exec s = (r, t) ∧ ∀ u ∈ g.toProg.visited exec s, I u := by
  induction g generalizing s with
  | ret | raise =>
    obtain ⟨hs, rfl, rfl⟩ := h
    exact ⟨rfl, by simpa [Gen.toProg, Prog.visited] using hs⟩
  | call c k ih =>
    obtain ⟨hrun, hvisited⟩ := ih _ h.2
    refine ⟨hrun, fun u hu => ?_⟩
    rcases List.mem_cons.mp hu with rfl | hu
    · exact h.1
    · exact hvisited u hu
  | yield y => exact y.elim

theorem Ends.ret (a : α) : Ends exec (.ret a : Gen C R Y ε α) s (.ok a) s := ⟨rfl, rfl⟩

theorem Ends.raise (e : ε) : Ends exec (.raise e : Gen C R Y ε α) s (.error e) s := ⟨rfl, rfl⟩

theorem Ends.bind_ok {a : α} {f : α → Gen C R Y ε β} {r : Except ε β} (h : Ends exec g s (.ok a) t)
    (hf : Ends exec (f a) t r u) : Ends exec (g.bind f) s r u :=
  endsIn_true.mp ((endsIn_true.mpr h).bind_ok (endsIn_true.mpr hf))

theorem Ends.bind_error {e : ε} {f : α → Gen C R Y ε β} (h : Ends exec g s (.error e) t) :
    Ends exec (g.bind f) s (.error e) t :=
  endsIn_true.mp (endsIn_true.mpr h).bind_error

theorem Ends.attempt (h : Ends exec g s r t) : Ends exec g.attempt s (.ok r) t :=
  endsIn_true.mp (endsIn_true.mpr h).attempt

section exceptions
variable {catches : ε → Bool} {handler : ε → Gen C R Y ε α}

theorem Ends.tryExcept_ok {a : α} (h : Ends exec g s (.ok a) t) :
    Ends exec (tryExcept catches g handler) s (.ok a) t :=
  h.attempt.bind_ok (.ret a)

/-- The clause handles the exceptions it is for. -/
theorem Ends.tryExcept_caught {e : ε} (h : Ends exec g s (.error e) t) (he : catches e = true)
    (hhandler : Ends exec (handler e) t r u) : Ends exec (tryExcept catches g handler) s r u := by
  refine h.attempt.bind_ok ?_
  simpa only [he, if_true] using hhandler

theorem Ends.tryExcept_missed {e : ε} (h : Ends exec g s (.error e) t) (he : catches e = false) :
    Ends exec (tryExcept catches g handler) s (.error e) t := by
  refine h.attempt.bind_ok ?_
  simpa only [he, Bool.false_eq_true, if_false] using Ends.raise e

theorem Ends.tryFinally {q : Gen C R Y ε Unit} (h : Ends exec g s r t)
    (hq : Ends exec q t (.ok ()) u) : Ends exec (tryFinally g q) s r u :=
  endsIn_true.mp ((endsIn_true.mpr h).tryFinally (endsIn_true.mpr hq))

end exceptions

theorem Ends.ofProg {p : Prog C R ε α} (h : p.run exec s = (r, t)) :
    Ends exec (ofProg p : Gen C R Y ε α) s r t := by
  induction p generalizing s with
  | ret | raise =>
    obtain ⟨rfl, rfl⟩ := Prod.mk.inj h
    exact ⟨rfl, rfl⟩
  | call c k ih => exact ih _ h

/-- A loop over a generator that yields no more does what the generator does. -/
theorem Ends.asyncFor {g : Gen C R Y ε Unit} {body : Y → Gen C R Z ε Unit} {r : Except ε Unit}
    (h : Ends exec g s r t) : Ends exec (asyncFor body g) s r t := by
  induction g generalizing s with
  | ret | raise => exact h
  | call c k ih => exact ih _ h
  | yield => exact h.elim

theorem Ends.advance (h : Ends exec g s r t) : g.advance.run exec s = (r.map .inl, t) := by
  induction g generalizing s with
  | ret | raise =>
    obtain ⟨rfl, rfl⟩ := h
    rfl
  | call c k ih => exact ih _ h
  | yield => exact h.elim

theorem Ends.toProg {g : Gen C R Empty ε α} (h : Ends exec g s r t) :
    g.toProg.run exec s = (r, t) :=
  (endsIn_true.mpr h).toProg.1

/-! ## On the way to a `yield` -/

section yields
variable {f : α → Gen C R Y ε β}

theorem Yields.yield (hs : I s) : Yields exec I (.yield y k) s y k s := ⟨hs, rfl, rfl, rfl⟩

/-- How a manager is resumed after its block. -/
def resume : Except ε α → Resume ε
  | .ok _ => .next
  | .error e => .throw e

/-- What `yieldOnce` does when it is resumed. -/
def resumeOnce : Resume ε → Gen C R Y ε Unit
  | .next => .ret ()
  | .throw e => .raise e

theorem Yields.yieldOnce (hs : I s) :
    Yields exec I (Gen.yieldOnce y : Gen C R Y ε Unit) s y resumeOnce s := by
  refine ⟨hs, rfl, ?_, rfl⟩
  funext r
  cases r <;> rfl

theorem EndsIn.resumeOnce (hs : I s) : ∀ r : Except ε Unit,
    EndsIn exec I (Gen.resumeOnce (resume r) : Gen C R Y ε Unit) s r s
  | .ok _ => .ret hs _
  | .error e => .raise hs e

theorem Yields.bind (h : Yields exec I g s y k t) :
    Yields exec I (g.bind f) s y (fun r => (k r).bind f) t := by
  induction g generalizing s with
  | ret | raise => exact h.elim
  | call c k' ih => exact ⟨h.1, ih _ h.2⟩
  | yield y' k' =>
    obtain ⟨hs, rfl, rfl, rfl⟩ := h
    exact .yield hs

theorem Yields.attempt (h : Yields exec I g s y k t) :
    Yields exec I g.attempt s y (fun r => (k r).attempt) t := by
  induction g generalizing s with
  | ret | raise => exact h.elim
  | call c k' ih => exact ⟨h.1, ih _ h.2⟩
  | yield y' k' =>
    obtain ⟨hs, rfl, rfl, rfl⟩ := h
    exact .yield hs

theorem Yields.tryFinally {q : Gen C R Y ε Unit} (h : Yields exec I g s y k t) :
    Yields exec I (Gen.tryFinally g q) s y (fun r => Gen.tryFinally (k r) q) t :=
  h.attempt.bind

/-- What comes before the `yield` is done. -/
theorem EndsIn.bind_yields {a : α} {k : Resume ε → Gen C R Y ε β} (h : EndsIn exec I g s (.ok a) t)
    (hf : Yields exec I (f a) t y k u) : Yields exec I (g.bind f) s y k u := by
  induction g generalizing s with
  | ret b =>
    obtain ⟨-, hb, rfl⟩ := h
    obtain rfl := Except.ok.inj hb
    exact hf
  | raise => cases h.2.1
  | call c k ih => exact ⟨h.1, ih _ h.2⟩
  | yield => exact h.elim

theorem Yields.advance (h : Yields exec I g s y k t) :
    EndsIn exec I (Gen.ofProg g.advance : Gen C R Z ε _) s (.ok (.inr (y, k))) t := by
  induction g generalizing s with
  | ret | raise => exact h.elim
  | call c k' ih => exact ⟨h.1, ih _ h.2⟩
  | yield y' k' =>
    obtain ⟨hs, rfl, rfl, rfl⟩ := h
    exact .ret hs _

end yields

/-! ## Context managers -/

section asyncWith
variable {misuse : Misuse ε} {manager : Gen C R Y ε Unit} {body : Y → Gen C R Z ε α} {y : Y}
  {k : Resume ε → Gen C R Y ε Unit}

/-- What a block with its manager ends with: the manager has the last word, and swallows the
exception of the block if it ends normally. -/
def withManager (r : Except ε α) (rm : Except ε Unit) : Except ε (Option α) :=
  rm.map fun _ => r.toOption

@[simp] theorem withManager_map (r : Except ε α) (rm : Except ε Unit) :
    (withManager r rm).map (fun _ => ()) = rm := by
  cases rm <;> rfl

/-- What `async with` does once the block stands at `g`. -/
def leaveWith (misuse : Misuse ε) (k : Resume ε → Gen C R Y ε Unit) (g : Gen C R Z ε α) :
    Gen C R Z ε (Option α) :=
  g.attempt.bind fun
    | .ok a => (ofProg (k .next).advance).bind fun
      | .inl _ => .ret (some a)
      | .inr _ => .raise misuse.didNotStop
    | .error e => (ofProg (k (.throw e)).advance).bind fun
      | .inl _ => .ret none
      | .inr _ => .raise misuse.didNotStop

theorem EndsIn.leaveWith {g : Gen C R Z ε α} {r : Except ε α} {rm : Except ε Unit}
    (h : EndsIn exec I g s r t) (hexit : EndsIn exec I (k (resume r)) t rm u) :
    EndsIn exec I (Gen.leaveWith misuse k g) s (withManager r rm) u := by
  refine h.attempt.bind_ok ?_
  have hadvance := hexit.advance (Z := Z)
  cases r with
  | ok a =>
    cases rm with
    | ok => exact hadvance.bind_ok (.ret hexit.stop _)
    | error e => exact hadvance.bind_error
  | error e =>
    cases rm with
    | ok => exact hadvance.bind_ok (.ret hexit.stop _)
    | error e' => exact hadvance.bind_error

variable (misuse body) in
/-- A manager comes to its `yield`, its block ends, and the manager is resumed and ends. -/
theorem EndsIn.asyncWith {r : Except ε α} {rm : Except ε Unit} {s' : σ}
    (hmanager : Yields exec I manager s y k s') (hbody : EndsIn exec I (body y) s' r t)
    (hexit : EndsIn exec I (k (resume r)) t rm u) :
    EndsIn exec I (Gen.asyncWith misuse manager body) s (withManager r rm) u :=
  hmanager.advance.bind_ok (hbody.leaveWith hexit)

theorem Ends.asyncWith {r : Except ε α} {rm : Except ε Unit} (hmanager : manager = .yield y k)
    (hbody : Ends exec (body y) s r t) (hexit : Ends exec (k (resume r)) t rm u) :
    Ends exec (Gen.asyncWith misuse manager body) s (withManager r rm) u := by
  subst hmanager
  exact endsIn_true.mp
    (.asyncWith misuse body (.yield trivial) (endsIn_true.mpr hbody) (endsIn_true.mpr hexit))

variable (misuse body) in
/-- A manager that does not come to its `yield`. -/
theorem EndsIn.asyncWith_enter {e : ε} (h : EndsIn exec I manager s (.error e) t) :
    EndsIn exec I (Gen.asyncWith misuse manager body) s (.error e) t :=
  EndsIn.bind_error h.advance

/-- A block that yields itself: a manager made of another. -/
theorem Yields.asyncWith {z : Z} {k' : Resume ε → Gen C R Z ε α} {s' : σ}
    (hmanager : Yields exec I manager s y k s') (hbody : Yields exec I (body y) s' z k' t) :
    Yields exec I (Gen.asyncWith misuse manager body) s z
      (fun r => Gen.leaveWith misuse k (k' r)) t :=
  hmanager.advance.bind_yields hbody.attempt.bind

end asyncWith

end ends

end Gen

end BaseWebService.Library
