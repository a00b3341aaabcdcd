import Mathlib.Tactic.Common
import Mathlib.Data.List.Induction

/-!
# Recorded runs of a transition relation

A run is kept as the list of its transitions, oldest first, so that a property of a whole
execution (what happened since some moment, how often something happened in a span of time)
is a property of a list. An invariant is proved once, by `Run.induct` or `Run.invariant`.
-/

namespace BaseWebService.Library

variable {S L : Type}

/-- One transition with the states on both sides of it. -/
structure Transition (S L : Type) where
  before : S
  label : L
  after : S

/-- Where a list that ends with `x` is cut: at `x`, or before it. -/
theorem snoc_eq_append_cons {α : Type} {xs past future : List α} {x y : α}
    (h : xs ++ [x] = past ++ y :: future) :
    (xs = past ∧ y = x) ∨ ∃ future', xs = past ++ y :: future' := by
  rcases List.eq_nil_or_concat future with rfl | ⟨init, z, rfl⟩
  · obtain ⟨hxs, hx⟩ := List.append_inj' h rfl
    exact Or.inl ⟨hxs, (List.singleton_inj.mp hx).symm⟩
  · rw [List.concat_eq_append, ← List.cons_append, ← List.append_assoc] at h
    exact Or.inr ⟨init, (List.append_inj' h rfl).1⟩

/-- Every element of a list satisfies `P`, given what stands before it. -/
def Throughout {α : Type} (P : List α → α → Prop) (xs : List α) : Prop :=
  ∀ past x future, xs = past ++ x :: future → P past x

section throughout
variable {α : Type} {P : List α → α → Prop} {xs ys : List α} {x : α}

@[simp] theorem throughout_nil : Throughout P [] := by
  intro past x future h
  simp at h

theorem throughout_snoc : Throughout P (xs ++ [x]) ↔ Throughout P xs ∧ P xs x := by
  constructor
  · intro h
    refine ⟨fun past y future hxs => ?_, h xs x [] rfl⟩
    exact h past y (future ++ [x]) (by simp [hxs])
  · rintro ⟨hxs, hx⟩ past y future hsplit
    rcases snoc_eq_append_cons hsplit with ⟨rfl, rfl⟩ | ⟨future', rfl⟩
    · exact hx
    · exact hxs past y future' rfl

theorem Throughout.of_append (h : Throughout P (xs ++ ys)) : Throughout P xs := by
  intro past x future hxs
  exact h past x (future ++ ys) (by simp [hxs])

theorem Throughout.append (h : Throughout P xs) (hys : ∀ y ∈ ys, ∀ past, P past y) :
    Throughout P (xs ++ ys) := by
  induction ys using List.reverseRecOn with
  | nil => rwa [List.append_nil]
  | append_singleton ys y ih =>
    rw [← List.append_assoc, throughout_snoc]
    exact ⟨ih fun z hz => hys z (List.mem_append_left _ hz), hys y (by simp) _⟩

end throughout

/-- `Run step s tr t`: the transitions `tr` lead from `s` to `t`. -/
inductive Run (step : S → L → S → Prop) (s : S) : List (Transition S L) → S → Prop where
  | nil : Run step s [] s
  | snoc {tr : List (Transition S L)} {t u : S} {l : L} :
      Run step s tr t → step t l u → Run step s (tr ++ [⟨t, l, u⟩]) u

/-- Some run from `s` ends in `t`. -/
def Reaches (step : S → L → S → Prop) (s t : S) : Prop := ∃ tr, Run step s tr t

namespace Run

variable {step : S → L → S → Prop} {s t u : S} {tr tr' : List (Transition S L)}

theorem single {l : L} (h : step s l t) : Run step s [⟨s, l, t⟩] t := Run.nil.snoc h

theorem trans (h : Run step s tr t) (h' : Run step t tr' u) : Run step s (tr ++ tr') u := by
  induction h' with
  | nil => simpa using h
  | snoc _ hstep ih => simpa [← List.append_assoc] using ih.snoc hstep

theorem cons {l : L} (h : step s l t) (h' : Run step t tr u) : Run step s (⟨s, l, t⟩ :: tr) u :=
  (single h).trans h'

theorem nil_eq (h : Run step s [] t) : t = s := by
  generalize htr : ([] : List (Transition S L)) = tr at h
  cases h with
  | nil => rfl
  | snoc _ _ => simp at htr

/-- The last transition of a run that ends with `x`, and the run before it. -/
theorem snoc_inv {x : Transition S L} (h : Run step s (tr ++ [x]) t) :
    Run step s tr x.before ∧ step x.before x.label x.after ∧ t = x.after := by
  generalize htr : tr ++ [x] = tr' at h
  cases h with
  | nil => simp at htr
  | snoc hrun hstep =>
    obtain ⟨rfl, hx⟩ := List.append_inj' htr rfl
    cases hx
    exact ⟨hrun, hstep, rfl⟩

/-- Cut a run where its list of transitions is cut. -/
theorem append_inv (h : Run step s (tr ++ tr') t) : ∃ m, Run step s tr m ∧ Run step m tr' t := by
  induction tr' using List.reverseRecOn generalizing t with
  | nil => exact ⟨t, by simpa using h, .nil⟩
  | append_singleton xs x ih =>
    rw [← List.append_assoc] at h
    obtain ⟨hrun, hstep, rfl⟩ := h.snoc_inv
    obtain ⟨m, hm, hm'⟩ := ih hrun
    exact ⟨m, hm, hm'.snoc hstep⟩

theorem cons_inv {x : Transition S L} (h : Run step s (x :: tr) t) :
    x.before = s ∧ step s x.label x.after ∧ Run step x.after tr t := by
  have h' : Run step s ([x] ++ tr) t := h
  obtain ⟨m, hm, hm'⟩ := h'.append_inv
  have hone : Run step s ([] ++ [x]) m := hm
  obtain ⟨hnil, hstep, rfl⟩ := hone.snoc_inv
  have hbefore := hnil.nil_eq
  exact ⟨hbefore, hbefore ▸ hstep, hm'⟩

/-- What every step keeps, every run keeps. -/
theorem invariant {I : S → Prop} (hstep : ∀ s l t, I s → step s l t → I t)
    (h : Run step s tr t) (hs : I s) : I t := by
  induction h with
  | nil => exact hs
  | snoc _ hst ih => exact hstep _ _ _ ih hst

/-- What every step with an allowed label keeps, every run of such steps keeps. -/
theorem invariant_of_labels {I : S → Prop} {P : L → Prop}
    (hstep : ∀ s l t, P l → I s → step s l t → I t) (h : Run step s tr t)
    (hP : ∀ x ∈ tr, P x.label) (hs : I s) : I t := by
  induction h with
  | nil => exact hs
  | @snoc tr t u l _ hst ih =>
    exact hstep t l u (hP ⟨t, l, u⟩ (by simp)) (ih fun x hx => hP x (List.mem_append_left _ hx)) hst

theorem step_of_mem (h : Run step s tr t) {x : Transition S L} (hx : x ∈ tr) :
    step x.before x.label x.after := by
  obtain ⟨past, future, rfl⟩ := List.append_of_mem hx
  obtain ⟨m, -, hm⟩ := h.append_inv
  obtain ⟨rfl, hstep, -⟩ := hm.cons_inv
  exact hstep

/-- The same for a property of the transitions recorded so far together with the state. -/
theorem recorded {I : List (Transition S L) → S → Prop}
    (hstep : ∀ tr s l t, I tr s → step s l t → I (tr ++ [⟨s, l, t⟩]) t)
    (h : Run step s tr t) (hs : I [] s) : I tr t := by
  induction h with
  | nil => exact hs
  | snoc _ hst ih => exact hstep _ _ _ _ ih hst

end Run

theorem Reaches.refl {step : S → L → S → Prop} (s : S) : Reaches step s s := ⟨[], .nil⟩

theorem Reaches.run {step : S → L → S → Prop} {s t u : S} {tr : List (Transition S L)}
    (h : Reaches step s t) (h' : Run step t tr u) : Reaches step s u :=
  let ⟨_, h⟩ := h
  ⟨_, h.trans h'⟩

end BaseWebService.Library
