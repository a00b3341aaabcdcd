import Mathlib.Data.List.Infix
import BaseWebService.Library.PyText

/-!
# Replacing words

`text.replace(old, new)` for a word that is not empty, on lists whose items show a letter each, so
that a text with marks on its characters is searched like the text itself.
-/

namespace BaseWebService.Library

variable {α β : Type*} [DecidableEq α]

/-- From left to right, each occurrence of the word `old` becomes `new`; the first `skip` items
belong to an occurrence that was met before them. -/
def replaceFrom (letter : β → α) (old : List α) (new : List β) : ℕ → List β → List β
  | _, [] => []
  | skip + 1, _ :: l => replaceFrom letter old new skip l
  | 0, x :: l =>
    if old <+: (x :: l).map letter then new ++ replaceFrom letter old new (old.length - 1) l
    else x :: replaceFrom letter old new 0 l

/-- `text.replace(old, new)`, where `old` is not empty. -/
def pyReplaceAll (old new text : String) : String :=
  String.ofList (replaceFrom id old.toList new.toList 0 text.toList)

section replaceFrom
variable {letter : β → α} {old : List α} {new l l' : List β} {skip : ℕ}

theorem replaceFrom_length_append (before l : List β) :
    replaceFrom letter old new before.length (before ++ l) = replaceFrom letter old new 0 l := by
  induction before with
  | nil => rfl
  | cons x before ih => exact ih

/-- A word with a letter that does not occur. -/
theorem replaceFrom_eq_self {a : α} (hold : a ∈ old) (hl : ∀ x ∈ l, letter x ≠ a) :
    replaceFrom letter old new 0 l = l := by
  induction l with
  | nil => rfl
  | cons x l ih =>
    have hno : ¬ old <+: (x :: l).map letter := by
      intro hstart
      obtain ⟨y, hy, hletter⟩ := List.mem_map.mp (hstart.subset hold)
      exact hl y hy hletter
    rw [replaceFrom, if_neg hno, ih fun y hy => hl y (List.mem_cons_of_mem _ hy)]

/-- What a word cannot begin in is kept. -/
theorem replaceFrom_append_left {a : α} {old : List α} (hl : ∀ x ∈ l, letter x ≠ a) :
    replaceFrom letter (a :: old) new 0 (l ++ l') =
      l ++ replaceFrom letter (a :: old) new 0 l' := by
  induction l with
  | nil => rfl
  | cons x l ih =>
    have hno : ¬ a :: old <+: (x :: (l ++ l')).map letter := by
      rw [List.map_cons, List.cons_prefix_cons]
      exact fun h => hl x List.mem_cons_self h.1.symm
    rw [List.cons_append, replaceFrom, if_neg hno, ih fun y hy => hl y (List.mem_cons_of_mem _ hy),
      List.cons_append]

omit [DecidableEq α] in
/-- A word in a text with a tail that shares no letter with it. -/
theorem prefix_append_iff {tail : List α} (text : List α) (htail : ∀ a ∈ tail, a ∉ old) :
    old <+: text ++ tail ↔ old <+: text := by
  refine ⟨fun h => ?_, fun h => h.trans (List.prefix_append _ _)⟩
  rcases Nat.le_total old.length text.length with hlength | hlength
  · exact List.prefix_of_prefix_length_le h (List.prefix_append _ _) hlength
  · obtain ⟨rest, rfl⟩ := List.prefix_of_prefix_length_le (List.prefix_append text tail) h hlength
    rw [List.prefix_append_right_inj] at h
    cases rest with
    | nil => simp
    | cons a rest =>
      have hmem := h.subset List.mem_cons_self
      exact absurd (List.mem_append_right _ List.mem_cons_self) (htail a hmem)

/-- What shares no letter with the word is kept. -/
theorem replaceFrom_append_right (hold : old ≠ []) (hl' : ∀ x ∈ l', letter x ∉ old)
    (hskip : skip ≤ l.length) :
    replaceFrom letter old new skip (l ++ l') = replaceFrom letter old new skip l ++ l' := by
  have htail : ∀ a ∈ l'.map letter, a ∉ old := by simpa using hl'
  induction l generalizing skip with
  | nil =>
    obtain rfl : skip = 0 := by simpa using hskip
    obtain ⟨a, old, rfl⟩ := List.exists_cons_of_ne_nil hold
    have hkeep : ∀ x ∈ l', letter x ≠ a := fun x hx h =>
      hl' x hx (by rw [h]; exact List.mem_cons_self)
    simpa [replaceFrom] using replaceFrom_eq_self List.mem_cons_self hkeep
  | cons x l ih =>
    cases skip with
    | succ skip => simpa [replaceFrom] using ih (by simpa using hskip)
    | zero =>
      have hsame : old <+: (x :: (l ++ l')).map letter ↔ old <+: (x :: l).map letter := by
        simpa using prefix_append_iff ((x :: l).map letter) htail
      rw [List.cons_append, replaceFrom, replaceFrom, if_congr hsame rfl rfl]
      split
      · rename_i hstart
        have hlength := hstart.length_le
        rw [List.length_map, List.length_cons] at hlength
        rw [ih (by omega), List.append_assoc]
      · rw [ih (Nat.zero_le _), List.cons_append]

/-- A letter that is replaced by nothing. -/
theorem replaceFrom_singleton (a : α) :
    replaceFrom letter [a] [] 0 l = l.filter fun x => letter x ≠ a := by
  induction l with
  | nil => rfl
  | cons x l ih =>
    have hstart : [a] <+: (x :: l).map letter ↔ a = letter x := by
      simp [List.cons_prefix_cons]
    rw [replaceFrom, if_congr hstart rfl rfl, List.filter_cons]
    simp only [List.length_singleton, Nat.sub_self, List.nil_append, ih]
    grind

end replaceFrom

end BaseWebService.Library
