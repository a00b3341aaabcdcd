import BaseWebService.Proto.Lines

/-!
# What the passes add

Every replacement puts the same number of backslashes and line ends into the text, whatever it
captures, and a replacement without references the same number of characters. So a text and what a
run makes of it tell how many replacements there were.

## Main results

* `runSteps_grows` : a run adds up its replacements.
* `literal_or_inline` : a run that adds what the package says either has a package without escapes
  or adds no line end.
* `runSteps_line` : what a run puts into a line begins with its last replacement.
-/

namespace BaseWebService.Proto

open Library Template

/-- The replacements add up to `after`. -/
structure Grows (pieces : List Piece) (n : ℕ) (before after : Text) : Prop where
  count : ∀ a ∈ specials, after.count a = before.count a + n * (literals pieces).count a
  length : pieces = (literals pieces).map .char →
    after.length = before.length + n * (literals pieces).length

section Grows
variable {pieces : List Piece} {n n' : ℕ} {before middle after before' after' : Text}

theorem Grows.refl (pieces : List Piece) (content : Text) : Grows pieces 0 content content :=
  ⟨fun _ _ => by omega, fun _ => by omega⟩

theorem Grows.trans (h : Grows pieces n before middle) (h' : Grows pieces n' middle after) :
    Grows pieces (n + n') before after where
  count a ha := by rw [h'.count a ha, h.count a ha, Nat.add_mul, Nat.add_assoc]
  length hliteral := by rw [h'.length hliteral, h.length hliteral, Nat.add_mul, Nat.add_assoc]

theorem Grows.append_break (h : Grows pieces n before after)
    (h' : Grows pieces n' before' after') :
    Grows pieces (n + n') (before ++ '\n' :: before') (after ++ '\n' :: after') where
  count a ha := by
    have := h.count a ha
    have := h'.count a ha
    simp only [List.count_append, List.count_cons, Nat.add_mul]
    omega
  length hliteral := by
    have := h.length hliteral
    have := h'.length hliteral
    simp only [List.length_append, List.length_cons, Nat.add_mul]
    omega

/-- One replacement. -/
theorem Grows.insert {word : Text} {group : Option Text} (before after : Text)
    (hword : ∀ a ∈ specials, a ∉ word) (hgroup : ∀ a ∈ specials, a ∉ group.getD []) :
    Grows pieces 1 (before ++ after) (before ++ expand pieces word group ++ after) where
  count a ha := by
    simp only [List.count_append, count_expand (hword a ha) (hgroup a ha)]
    omega
  length hliteral := by
    simp only [List.length_append, expand_eq_literals hliteral]
    omega

end Grows

theorem pass_line_grows (form : Form) (root : ProtoRoot) (pieces : List Piece) {line : Text}
    (hline : '\n' ∉ line) :
    ∃ n, Grows pieces n line (form.pass root pieces line) ∧ (n = 0 → ¬ form.Imports root line) := by
  by_cases h : form.Imports root line
  · obtain ⟨names, rest, hnames, hsplit, hpass⟩ := pass_of_imports pieces hline h
    rw [hpass, hsplit]
    exact ⟨1, .insert _ _ (fun a ha => not_mem_statement ha hnames form)
      (fun a ha => not_mem_modulePath ha hnames form), by simp⟩
  · rw [pass_of_not_imports hline h]
    exact ⟨0, .refl _ _, fun _ => h⟩

/-- The replacements of a pass; without any there was no line to change. -/
theorem pass_grows (form : Form) (root : ProtoRoot) (pieces : List Piece) (content : Text) :
    ∃ n, Grows pieces n content (form.pass root pieces content) ∧
      (n = 0 → ∀ line ∈ content.splitOn '\n', ¬ form.Imports root line) := by
  induction content using lines_induction with
  | last line hline =>
    obtain ⟨n, hgrows, hnone⟩ := pass_line_grows form root pieces hline
    exact ⟨n, hgrows, fun hn => (forall_mem_lines_of_not_mem hline).mpr (hnone hn)⟩
  | more line after hline ih =>
    obtain ⟨n, hgrows, hnone⟩ := pass_line_grows form root pieces hline
    obtain ⟨n', hgrows', hnone'⟩ := ih
    rw [pass_append_break]
    exact ⟨n + n', hgrows.append_break hgrows', fun hn =>
      (forall_mem_lines_append_break hline).mpr ⟨hnone (by omega), hnone' (by omega)⟩⟩

/-- A run adds up its replacements. -/
theorem runSteps_grows (steps : List (Form × ProtoRoot)) (pieces : List Piece) (content : Text) :
    ∃ n, Grows pieces n content (runSteps pieces steps content) ∧
      (n = 0 → ∀ step ∈ steps, ∀ line ∈ content.splitOn '\n', ¬ step.1.Imports step.2 line) := by
  induction steps generalizing content with
  | nil => exact ⟨0, .refl _ _, by simp⟩
  | cons step steps ih =>
    obtain ⟨n, hgrows, hnone⟩ := pass_grows step.1 step.2 pieces content
    obtain ⟨n', hgrows', hnone'⟩ := ih (step.1.pass step.2 pieces content)
    refine ⟨n + n', hgrows.trans hgrows', fun hn => List.forall_mem_cons.mpr ?_⟩
    have hfirst := hnone (by omega)
    rw [pass_eq_self hfirst] at hnone'
    exact ⟨hfirst, hnone' (by omega)⟩

theorem le_of_mul_eq {m n x y : ℕ} (h : m * x = n * y) (hxy : x ≤ y) (hy : 0 < y) : n ≤ m := by
  by_contra hlt
  have := Nat.mul_le_mul_left m hxy
  have := Nat.mul_lt_mul_of_pos_right (Nat.lt_of_not_le hlt) hy
  omega

/-- A run that adds what the package says: either the package holds no escape, or the run adds no
line end. -/
theorem literal_or_inline {pkg : Text} {pieces : List Piece} {m n : ℕ} {before after : Text}
    (hpkg : parsePackage pkg = some pieces) (hrun : Grows pieces m before after)
    (hfixed : Grows ((pkg ++ ['.']).map .char) n before after) (hn : 0 < n) :
    pieces = (pkg ++ ['.']).map .char ∨ '\n' ∉ literals pieces := by
  by_cases hslash : '\\' ∈ pkg ++ ['.']
  · have hshrinks := (parsed_of_parseTemplate hpkg).shrinks
    have hcount : ∀ a ∈ specials,
        m * (literals pieces).count a = n * (pkg ++ ['.']).count a := by
      intro a ha
      have := hrun.count a ha
      have := hfixed.count a ha
      rw [literals_map_char] at this
      omega
    have hslashes := hcount '\\' (by decide)
    have hbreaks := hcount '\n' (by decide)
    have hsome : 0 < (pkg ++ ['.']).count '\\' := List.count_pos_iff.mpr hslash
    have hle : n ≤ m := le_of_mul_eq hslashes hshrinks.slashes hsome
    rw [or_iff_not_imp_right, not_not]
    intro hbreak
    have hpos : 0 < (literals pieces).count '\n' := List.count_pos_iff.mpr hbreak
    have hge : m ≤ n := le_of_mul_eq hbreaks.symm hshrinks.breaks hpos
    obtain rfl := Nat.le_antisymm hge hle
    have hliteral := hshrinks.literal (Nat.eq_of_mul_eq_mul_left hn hslashes)
    have hlength : m * (literals pieces).length = m * (pkg ++ ['.']).length := by
      have := hrun.length hliteral
      have := hfixed.length (by rw [literals_map_char])
      rw [literals_map_char] at this
      omega
    rw [hliteral, hshrinks.same (Nat.eq_of_mul_eq_mul_left hn hlength)]
  · left
    rw [parsePackage, ← List.append_nil (pkg ++ ['.']),
      parseTemplate_append_of_not_mem hslash] at hpkg
    simpa using hpkg.symm

/-! ## One line in a whole run -/

/-- What a run has put before the end `start` of a line: nothing, or its last replacement first. -/
def Inserted (pieces : List Piece) (start after : Text) : Prop :=
  after = start ∨ ∃ word group more, '\\' ∉ word ∧ '\\' ∉ Option.getD group [] ∧
    after = expand pieces word group ++ more ++ start

theorem Inserted.insert {pieces : List Piece} {start after word : Text} {group : Option Text}
    (h : Inserted pieces start after) (hword : '\\' ∉ word) (hgroup : '\\' ∉ group.getD []) :
    Inserted pieces start (expand pieces word group ++ after) := by
  obtain rfl | ⟨word', group', more, -, -, rfl⟩ := h
  · exact .inr ⟨word, group, [], hword, hgroup, by simp⟩
  · exact .inr ⟨word, group, expand pieces word' group' ++ more, hword, hgroup,
      by simp only [List.append_assoc]⟩

theorem Form.keyword_inj {form form' : Form} {after after' : Text}
    (h : form.keyword ++ after = form'.keyword ++ after') : form = form' ∧ after = after' := by
  cases form <;> cases form' <;> simp_all [Form.keyword, text]

/-- A run that adds no line end leaves a line one line. -/
theorem Grows.not_mem {pieces : List Piece} {n : ℕ} {before after : Text}
    (h : Grows pieces n before after) (hbreak : '\n' ∉ literals pieces) (hbefore : '\n' ∉ before) :
    '\n' ∉ after := by
  rw [← List.count_eq_zero] at hbreak hbefore ⊢
  rw [h.count '\n' (by decide), hbreak, hbefore, Nat.mul_zero]

theorem runSteps_line {pieces : List Piece} (hbreak : '\n' ∉ literals pieces)
    (steps : List (Form × ProtoRoot)) (form : Form) (start : Text) {line : Text}
    (hline : '\n' ∉ form.keyword ++ line) (hinserted : Inserted pieces start line) :
    ∃ after, runSteps pieces steps (form.keyword ++ line) = form.keyword ++ after ∧
      Inserted pieces start after := by
  induction steps generalizing line with
  | nil => exact ⟨line, rfl, hinserted⟩
  | cons step steps ih =>
    by_cases h : step.1.Imports step.2 (form.keyword ++ line)
    · obtain ⟨names, rest, hnames, hsplit, hpass⟩ := pass_of_imports pieces hline h
      obtain ⟨hform, hrest⟩ := Form.keyword_inj hsplit
      obtain ⟨n, hgrows, -⟩ := pass_line_grows step.1 step.2 pieces hline
      have hafter := hgrows.not_mem hbreak hline
      rw [runSteps_cons]
      rw [hpass, ← hrest, ← hform, List.append_assoc] at hafter ⊢
      have hslash : '\\' ∈ specials := List.mem_cons_self
      exact ih hafter (hinserted.insert (not_mem_statement hslash hnames form)
        (not_mem_modulePath hslash hnames form))
    · rw [runSteps_cons, pass_of_not_imports hline h]
      exact ih hline hinserted

end BaseWebService.Proto
