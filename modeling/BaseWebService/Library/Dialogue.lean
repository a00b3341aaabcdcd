import BaseWebService.Library.Pool

/-!
# Dialogues and filters

A `Dialogue` is what passes between a flowchart and whoever answers its commands: any prefix of a
run, which need not come to an end. A `Filter` sits in between: it hands every command on, keeps a
state of its own, and may change the replies on their way back. `Filter.flow` puts it around a
flowchart, with a program for what is left to do when the flowchart ends; the flowchart inside has
the dialogue that `Filter.inner` computes from the one outside.
-/

namespace BaseWebService.Library

variable {C : Type} {R : C → Type} {ε α σ P : Type}

/-- A command and the reply to it. -/
abbrev Event (C : Type) (R : C → Type) := (c : C) × R c

/-- The flowchart issues the commands one after the other, is given the replies, and ends up at a
point. -/
inductive Dialogue (flow : Flow C R ε α P) : P → List (Event C R) → P → Prop where
  | nil {p : P} : Dialogue flow p [] p
  | cons {p q : P} {c : C} {next : R c → P} {r : R c} {es : List (Event C R)} :
      flow p = .call c next → Dialogue flow (next r) es q → Dialogue flow p (⟨c, r⟩ :: es) q

/-- The same node of a flowchart whose points are renamed. -/
def Node.map {Q : Type} (f : P → Q) : Node C R ε α P → Node C R ε α Q
  | .ret a => .ret a
  | .raise e => .raise e
  | .call c next => .call c (f ∘ next)

/-- How a flowchart ends at a point. -/
def Node.result : Node C R ε α P → Option (Except ε α)
  | .ret a => some (.ok a)
  | .raise e => some (.error e)
  | .call _ _ => none

namespace Dialogue

variable {flow : Flow C R ε α P} {p q m : P} {es es' : List (Event C R)}

theorem append (h : Dialogue flow p es m) (h' : Dialogue flow m es' q) :
    Dialogue flow p (es ++ es') q := by
  induction h with
  | nil => exact h'
  | cons hp _ ih => exact .cons hp (ih h')

theorem append_inv (h : Dialogue flow p (es ++ es') q) :
    ∃ m, Dialogue flow p es m ∧ Dialogue flow m es' q := by
  induction es generalizing p with
  | nil => exact ⟨p, .nil, h⟩
  | cons e es ih =>
    cases h with
    | cons hp h =>
      obtain ⟨m, hm, hm'⟩ := ih h
      exact ⟨m, .cons hp hm, hm'⟩

theorem eq_nil (h : Dialogue flow p es q) (hp : (flow p).result.isSome = true) :
    es = [] ∧ q = p := by
  cases h with
  | nil => exact ⟨rfl, rfl⟩
  | cons hcall _ => simp [hcall, Node.result] at hp

/-- Renaming the points does not change what is said. -/
theorem map_iff {Q : Type} {f : P → Q} {flow' : Flow C R ε α Q}
    (hflow : ∀ p, flow' (f p) = (flow p).map f) {x : Q} :
    Dialogue flow' (f p) es x ↔ ∃ q, x = f q ∧ Dialogue flow p es q := by
  constructor
  · intro h
    induction es generalizing p with
    | nil =>
      cases h
      exact ⟨p, rfl, .nil⟩
    | cons e es ih =>
      cases h with
      | cons hp h =>
        rw [hflow] at hp
        cases hnode : flow p with
        | ret | raise => simp [hnode, Node.map] at hp
        | call c next =>
          rw [hnode] at hp
          obtain ⟨rfl, hnext⟩ := Node.call.inj hp
          obtain rfl := eq_of_heq hnext
          obtain ⟨q, hx, hq⟩ := ih h
          exact ⟨q, hx, .cons hnode hq⟩
  · rintro ⟨q, rfl, h⟩
    induction h with
    | nil => exact .nil
    | @cons p q c next r es hp _ ih => exact .cons (by rw [hflow, hp, Node.map]) ih

end Dialogue

/-- A program as a flowchart: what is left of it is the point. -/
def Prog.flow : Flow C R ε α (Prog C R ε α)
  | .ret a => .ret a
  | .raise e => .raise e
  | .call c k => .call c k

/-- What is done to the state before a command is handed on, and to the reply and the state once
it is answered. -/
structure Filter (C : Type) (R : C → Type) (σ : Type) where
  before : C → σ → σ
  after : (c : C) → R c → σ → R c × σ

namespace Filter

variable (f : Filter C R σ)

/-- What one event looks like inside, and the state after it. -/
def step (s : σ) (e : Event C R) : Event C R × σ :=
  let r := f.after e.1 e.2 (f.before e.1 s)
  (⟨e.1, r.1⟩, r.2)

/-- What a dialogue looks like inside. -/
def inner : σ → List (Event C R) → List (Event C R)
  | _, [] => []
  | s, e :: es => (f.step s e).1 :: inner (f.step s e).2 es

def state (s : σ) (es : List (Event C R)) : σ := es.foldl (fun s e => (f.step s e).2) s

@[simp] theorem inner_nil (s : σ) : f.inner s [] = [] := rfl
@[simp] theorem inner_cons (s : σ) (e : Event C R) (es : List (Event C R)) :
    f.inner s (e :: es) = (f.step s e).1 :: f.inner (f.step s e).2 es := rfl
@[simp] theorem state_nil (s : σ) : f.state s [] = s := rfl
@[simp] theorem state_cons (s : σ) (e : Event C R) (es : List (Event C R)) :
    f.state s (e :: es) = f.state (f.step s e).2 es := rfl

theorem inner_append (s : σ) (es es' : List (Event C R)) :
    f.inner s (es ++ es') = f.inner s es ++ f.inner (f.state s es) es' := by
  induction es generalizing s with
  | nil => rfl
  | cons e es ih => simp [ih]

@[simp] theorem length_inner (s : σ) (es : List (Event C R)) :
    (f.inner s es).length = es.length := by
  induction es generalizing s with
  | nil => rfl
  | cons e es ih => simp [ih]

/-- The flowchart runs without the filter, or inside it, or has ended and the rest is being
done. -/
inductive Point (C : Type) (R : C → Type) (ε α σ P : Type) where
  | bare (p : P)
  | inside (s : σ) (p : P)
  | after (prog : Prog C R ε α)

variable (finish : σ → Except ε α → Prog C R ε α) (app : Flow C R ε α P)

/-- The flowchart with the filter around it. -/
def flow : Flow C R ε α (Point C R ε α σ P)
  | .bare p => (app p).map .bare
  | .inside s p => match app p with
    | .ret a => (finish s (.ok a)).flow.map .after
    | .raise e => (finish s (.error e)).flow.map .after
    | .call c next => .call c fun r =>
      .inside (f.step s ⟨c, r⟩).2 (next (f.step s ⟨c, r⟩).1.2)
  | .after prog => prog.flow.map .after

variable {f finish app} {s : σ} {p : P} {es : List (Event C R)}
  {x : Point C R ε α σ P}

theorem flow_call {c : C} {next : R c → P} (hp : app p = .call c next) :
    f.flow finish app (.inside s p) = .call c fun r =>
      .inside (f.step s ⟨c, r⟩).2 (next (f.step s ⟨c, r⟩).1.2) := by
  simp only [flow, hp]

/-- The dialogue of what is inside, seen from outside. -/
theorem dialogue_of_inner {q : P} (h : Dialogue app p (f.inner s es) q) :
    Dialogue (f.flow finish app) (.inside s p) es (.inside (f.state s es) q) := by
  induction es generalizing s p with
  | nil =>
    cases h
    exact .nil
  | cons e es ih =>
    cases h with
    | cons hp h => exact .cons (flow_call hp) (ih h)

theorem flow_result {r : Except ε α} (hp : (app p).result = some r) :
    f.flow finish app (.inside s p) = f.flow finish app (.after (finish s r)) := by
  cases hnode : app p with
  | ret | raise =>
    rw [hnode] at hp
    cases hp
    simp only [flow, hnode]
  | call => simp [hnode, Node.result] at hp

theorem dialogue_bare : Dialogue (f.flow finish app) (.bare p) es x ↔
    ∃ q, x = .bare q ∧ Dialogue app p es q := by
  have hflow : ∀ q, f.flow finish app (.bare q) = (app q).map .bare := fun _ => rfl
  exact Dialogue.map_iff hflow

theorem dialogue_after {prog : Prog C R ε α} : Dialogue (f.flow finish app) (.after prog) es x ↔
    ∃ rest, x = .after rest ∧ Dialogue Prog.flow prog es rest := by
  have hflow : ∀ q, f.flow finish app (.after q) = q.flow.map .after := fun _ => rfl
  exact Dialogue.map_iff hflow

/-- A dialogue with a filtered flowchart is one of the flowchart inside, and, once it has ended, one
of the program that follows. -/
theorem dialogue_cases (h : Dialogue (f.flow finish app) (.inside s p) es x) :
    (∃ q, x = .inside (f.state s es) q ∧ Dialogue app p (f.inner s es) q) ∨
    ∃ es₁ es₂ q r rest, es = es₁ ++ es₂ ∧ Dialogue app p (f.inner s es₁) q ∧
      (app q).result = some r ∧ Dialogue Prog.flow (finish (f.state s es₁) r) es₂ rest ∧
      x = .after rest := by
  induction es generalizing s p with
  | nil =>
    cases h
    exact Or.inl ⟨p, rfl, .nil⟩
  | cons e es ih =>
    cases hresult : (app p).result with
    | some r =>
      have h' : Dialogue (f.flow finish app) (.after (finish s r)) (e :: es) x := by
        cases h with
        | cons hp h => exact .cons ((flow_result hresult).symm.trans hp) h
      obtain ⟨rest, rfl, hrest⟩ := dialogue_after.mp h'
      exact Or.inr ⟨[], e :: es, p, r, rest, rfl, .nil, hresult, hrest, rfl⟩
    | none =>
      cases hnode : app p with
      | ret | raise => simp [hnode, Node.result] at hresult
      | call c next =>
        cases h with
        | cons hp h =>
          rw [flow_call hnode] at hp
          obtain ⟨rfl, hnext⟩ := Node.call.inj hp
          obtain rfl := eq_of_heq hnext
          rcases ih h with ⟨q, rfl, hq⟩ | ⟨es₁, es₂, q, r, rest, rfl, hq, hr, hrest, rfl⟩
          · exact Or.inl ⟨q, rfl, .cons hnode hq⟩
          · exact Or.inr ⟨_ :: es₁, es₂, q, r, rest, rfl, .cons hnode hq, hr, hrest, rfl⟩

end Filter

end BaseWebService.Library
