import BaseWebService.Proto.Growth

/-!
# Running the script again

What the script is for: every line that imports from a proto root names the package once, whatever
the order of the roots and however often the script runs. It does so exactly when no line that it
writes is again one that it changes, and the package is written as it is read.

## Main definitions

* `fixedContent` : each import from a root with the package before its module path, once.
* `Stable` : no line is changed again once it is fixed.

## Main results

* `fixes_iff` : a text is fixed in every order of the roots, and kept by every second run, exactly
  when it is stable.
-/

namespace BaseWebService.Proto

open Library Template

/-! ## What the script is for -/

theorem imports_iff_run {form : Form} {root : ProtoRoot} {line : Text} :
    form.Imports root line ↔ (form.body root).run none line ≠ [] := by
  rw [ne_eq, List.eq_nil_iff_forall_not_mem, not_forall]
  simp only [not_not]
  constructor
  · rintro ⟨names, rest, hnames, hsplit⟩
    exact ⟨⟨_, rest, _⟩, (Regex.mem_run _ _ _ _).mpr
      ⟨hsplit, matches_body_iff.mpr ⟨names, hnames, rfl, rfl⟩⟩⟩
  · rintro ⟨m, hm⟩
    obtain ⟨hline, hmatches⟩ := (Regex.mem_run _ _ _ _).mp hm
    obtain ⟨names, hnames, hword, -⟩ := matches_body_iff.mp hmatches
    exact ⟨names, m.rest, hnames, hword ▸ hline⟩

instance (form : Form) (root : ProtoRoot) (line : Text) : Decidable (form.Imports root line) :=
  decidable_of_iff _ imports_iff_run.symm

/-- The line with the package before its module path. -/
def Form.prefixed (pkg line : Text) (form : Form) : Text :=
  form.keyword ++ (pkg ++ '.' :: line.drop form.keyword.length)

def fixedLine (pkg : Text) (roots : List ProtoRoot) (line : Text) : Text :=
  if ∃ root ∈ roots, Form.fromForm.Imports root line then Form.fromForm.prefixed pkg line
  else if ∃ root ∈ roots, Form.importForm.Imports root line then Form.importForm.prefixed pkg line
  else line

def fixedContent (pkg : Text) (roots : List ProtoRoot) (content : Text) : Text :=
  mapLines (fixedLine pkg roots) content

/-- One text: a run in any order of the roots fixes it, and another run in any order keeps that. -/
def Fixes (pkg : Text) (roots : List ProtoRoot) (content : Text) : Prop :=
  ∀ order, order.Perm roots →
    fixContent pkg order content = some (fixedContent pkg roots content) ∧
    ∀ again, again.Perm roots →
      fixContent pkg again (universalNewlines (fixedContent pkg roots content)) =
        some (fixedContent pkg roots content)

/-! ## When it does that -/

/-- No line imports from a root. -/
def Untouched (roots : List ProtoRoot) (content : Text) : Prop :=
  ∀ line ∈ content.splitOn '\n', ∀ form, ∀ root ∈ roots, ¬ Form.Imports form root line

/-- The package is written as it is and read back as it was written. -/
def ReadBack (pkg : Text) : Prop :=
  parsePackage pkg = some ((pkg ++ ['.']).map .char) ∧ '\r' ∉ pkg

/-- Once it is fixed, the line imports from no root. -/
def StableLine (pkg : Text) (roots : List ProtoRoot) (line : Text) : Prop :=
  ∀ form, ∀ root ∈ roots, Form.Imports form root line → Untouched roots (form.prefixed pkg line)

structure Stable (pkg : Text) (roots : List ProtoRoot) (content : Text) : Prop where
  template : roots ≠ [] → parsePackage pkg ≠ none
  readBack : ¬ Untouched roots content → ReadBack pkg
  lines : ∀ line ∈ content.splitOn '\n', StableLine pkg roots line

/-! ## Lines -/

section fixedLine
variable {pkg line : Text} {roots : List ProtoRoot} {root : ProtoRoot} {form : Form}

theorem Form.Imports.form_eq {form' : Form} {root' : ProtoRoot} (h : form.Imports root line)
    (h' : form'.Imports root' line) : form = form' := by
  obtain ⟨names, rest, -, hsplit⟩ := h
  obtain ⟨names', rest', -, hsplit'⟩ := h'
  simp only [List.append_assoc] at hsplit hsplit'
  exact (Form.keyword_inj (hsplit.symm.trans hsplit')).1

theorem fixedLine_of_imports (hroot : root ∈ roots) (h : form.Imports root line) :
    fixedLine pkg roots line = form.prefixed pkg line := by
  cases form with
  | fromForm => rw [fixedLine, if_pos ⟨root, hroot, h⟩]
  | importForm =>
    have hfrom : ¬ ∃ root ∈ roots, Form.fromForm.Imports root line := by
      rintro ⟨root', -, h'⟩
      cases h.form_eq h'
    rw [fixedLine, if_neg hfrom, if_pos ⟨root, hroot, h⟩]

theorem fixedLine_of_not_imports (h : ∀ form, ∀ root ∈ roots, ¬ Form.Imports form root line) :
    fixedLine pkg roots line = line := by
  rw [fixedLine, if_neg, if_neg]
  · rintro ⟨root, hroot, himports⟩
    exact h _ root hroot himports
  · rintro ⟨root, hroot, himports⟩
    exact h _ root hroot himports

theorem fixedLine_cases (pkg : Text) (roots : List ProtoRoot) (line : Text) :
    (∃ form, ∃ root ∈ roots, Form.Imports form root line ∧
      fixedLine pkg roots line = form.prefixed pkg line) ∨
    ((∀ form, ∀ root ∈ roots, ¬ Form.Imports form root line) ∧
      fixedLine pkg roots line = line) := by
  by_cases h : ∃ form, ∃ root ∈ roots, Form.Imports form root line
  · obtain ⟨form, root, hroot, himports⟩ := h
    exact .inl ⟨form, root, hroot, himports, fixedLine_of_imports hroot himports⟩
  · push Not at h
    exact .inr ⟨h, fixedLine_of_not_imports h⟩

theorem Form.prefixed_keyword (form : Form) (pkg after : Text) :
    form.prefixed pkg (form.keyword ++ after) = form.keyword ++ (pkg ++ '.' :: after) := by
  rw [Form.prefixed, List.drop_left]

theorem Form.Imports.exists_keyword (h : form.Imports root line) :
    ∃ after, line = form.keyword ++ after ∧
      ∀ pkg, form.prefixed pkg line = form.keyword ++ (pkg ++ '.' :: after) := by
  obtain ⟨names, rest, -, rfl⟩ := h
  rw [List.append_assoc, List.append_assoc]
  exact ⟨_, rfl, fun pkg => form.prefixed_keyword pkg _⟩

theorem untouched_append_break {before after : Text} :
    Untouched roots (before ++ '\n' :: after) ↔ Untouched roots before ∧ Untouched roots after := by
  rw [Untouched, List.splitOn_append_cons_self, List.forall_mem_append]
  rfl

theorem untouched_iff_of_not_mem (hline : '\n' ∉ line) :
    Untouched roots line ↔ ∀ form, ∀ root ∈ roots, ¬ Form.Imports form root line := by
  rw [Untouched, forall_mem_lines_of_not_mem hline]

end fixedLine

/-! ## Stable texts -/

section stable
variable {pkg : Text} {pieces : List Piece} {roots order : List ProtoRoot} {content : Text}

theorem fixedContent_of_not_mem {line : Text} (hline : '\n' ∉ line) :
    fixedContent pkg roots line = fixedLine pkg roots line :=
  mapLines_of_not_mem hline

theorem fixedContent_append_break {line : Text} (hline : '\n' ∉ line) (after : Text) :
    fixedContent pkg roots (line ++ '\n' :: after) =
      fixedLine pkg roots line ++ '\n' :: fixedContent pkg roots after :=
  mapLines_append_break hline after

theorem fixedContent_eq_self (h : Untouched roots content) :
    fixedContent pkg roots content = content := by
  induction content using lines_induction with
  | last line hline =>
    rw [fixedContent_of_not_mem hline,
      fixedLine_of_not_imports ((untouched_iff_of_not_mem hline).mp h)]
  | more line after hline ih =>
    obtain ⟨hfirst, hafter⟩ := untouched_append_break.mp h
    rw [fixedContent_append_break hline, ih hafter,
      fixedLine_of_not_imports ((untouched_iff_of_not_mem hline).mp hfirst)]

theorem runSteps_of_untouched (horder : order.Perm roots) (h : Untouched roots content) :
    runSteps pieces (steps order) content = content := by
  refine runSteps_eq_self fun step hstep line hline => ?_
  exact h line hline step.1 step.2 (horder.mem_iff.mp (mem_steps.mp hstep))

theorem fixContent_of_untouched (horder : order.Perm roots)
    (htemplate : roots ≠ [] → parsePackage pkg ≠ none) (h : Untouched roots content) :
    fixContent pkg order content = some content := by
  cases hpkg : parsePackage pkg with
  | some pieces => rw [fixContent_eq hpkg, runSteps_of_untouched horder h]
  | none =>
    obtain rfl : roots = [] := by_contra fun hroots => htemplate hroots hpkg
    obtain rfl := horder.eq_nil
    rfl

/-- The first pass that changes a line is the last one. -/
theorem runSteps_line_of_imports {line : Text} {steps : List (Form × ProtoRoot)}
    (hline : '\n' ∉ line) (hsteps : ∀ step ∈ steps, step.2 ∈ roots)
    (hstable : StableLine pkg roots line)
    (himports : ∃ step ∈ steps, step.1.Imports step.2 line) :
    runSteps ((pkg ++ ['.']).map .char) steps line = fixedLine pkg roots line := by
  induction steps with
  | nil => simp at himports
  | cons step steps ih =>
    obtain ⟨hroot, hsteps⟩ := List.forall_mem_cons.mp hsteps
    rw [runSteps_cons]
    by_cases h : step.1.Imports step.2 line
    · obtain ⟨names, rest, hnames, hsplit, hpass⟩ :=
        pass_of_imports ((pkg ++ ['.']).map .char) hline h
      obtain ⟨after, hafter, hprefixed⟩ := h.exists_keyword
      have hrest := (Form.keyword_inj (hafter.symm.trans hsplit)).2
      have hwritten : step.1.pass step.2 ((pkg ++ ['.']).map .char) line =
          step.1.prefixed pkg line := by
        rw [hpass, hprefixed, expand_map_char, ← hrest]
        simp
      rw [hwritten, fixedLine_of_imports hroot h]
      exact runSteps_eq_self fun next hnext line' hline' =>
        hstable step.1 step.2 hroot h line' hline' next.1 next.2 (hsteps next hnext)
    · rw [pass_of_not_imports hline h]
      exact ih hsteps (by simpa [h] using himports)

theorem runSteps_line_eq_fixedLine {line : Text} (horder : order.Perm roots)
    (hline : '\n' ∉ line) (hstable : StableLine pkg roots line) :
    runSteps ((pkg ++ ['.']).map .char) (steps order) line = fixedLine pkg roots line := by
  by_cases h : ∃ step ∈ steps order, step.1.Imports step.2 line
  · exact runSteps_line_of_imports hline (fun step hstep => horder.mem_iff.mp (mem_steps.mp hstep))
      hstable h
  · have hnone : ∀ form, ∀ root ∈ roots, ¬ Form.Imports form root line := by
      intro form root hroot himports
      exact h ⟨(form, root), mem_steps.mpr (horder.mem_iff.mpr hroot), himports⟩
    rw [runSteps_of_untouched horder ((untouched_iff_of_not_mem hline).mpr hnone),
      fixedLine_of_not_imports hnone]

theorem runSteps_eq_fixedContent (horder : order.Perm roots)
    (hstable : ∀ line ∈ content.splitOn '\n', StableLine pkg roots line) :
    runSteps ((pkg ++ ['.']).map .char) (steps order) content = fixedContent pkg roots content := by
  induction content using lines_induction with
  | last line hline =>
    rw [forall_mem_lines_of_not_mem hline] at hstable
    rw [fixedContent_of_not_mem hline, runSteps_line_eq_fixedLine horder hline hstable]
  | more line after hline ih =>
    obtain ⟨hfirst, hafter⟩ := (forall_mem_lines_append_break hline).mp hstable
    rw [fixedContent_append_break hline, runSteps_append_break, ih hafter,
      runSteps_line_eq_fixedLine horder hline hfirst]

/-- A property of every line of the fixed text. -/
theorem fixedContent_induction {P : Text → Prop}
    (hbreak : ∀ before after, P before → P after → P (before ++ '\n' :: after))
    (hline : ∀ line ∈ content.splitOn '\n', P (fixedLine pkg roots line)) :
    P (fixedContent pkg roots content) := by
  induction content using lines_induction with
  | last line hmem =>
    rw [fixedContent_of_not_mem hmem]
    exact (forall_mem_lines_of_not_mem hmem).mp hline
  | more line after hmem ih =>
    obtain ⟨hfirst, hafter⟩ := (forall_mem_lines_append_break hmem).mp hline
    rw [fixedContent_append_break hmem]
    exact hbreak _ _ hfirst (ih hafter)

theorem untouched_fixedContent
    (hstable : ∀ line ∈ content.splitOn '\n', StableLine pkg roots line) :
    Untouched roots (fixedContent pkg roots content) := by
  refine fixedContent_induction (fun _ _ h h' => untouched_append_break.mpr ⟨h, h'⟩) ?_
  intro line hline
  obtain ⟨form, root, hroot, himports, heq⟩ | ⟨hnone, heq⟩ := fixedLine_cases pkg roots line
  · rw [heq]
    exact hstable line hline form root hroot himports
  · rw [heq]
    exact (untouched_iff_of_not_mem (not_mem_of_mem_lines hline).1).mpr hnone

theorem not_mem_fixedContent (roots : List ProtoRoot) (hpkg : '\r' ∉ pkg)
    (hcontent : '\r' ∉ content) : '\r' ∉ fixedContent pkg roots content := by
  refine fixedContent_induction (P := fun fixed => '\r' ∉ fixed) (by simp_all) ?_
  intro line hline
  have hmem : '\r' ∉ line := fun h => hcontent ((not_mem_of_mem_lines hline).2 _ h)
  obtain ⟨form, root, hroot, himports, heq⟩ | ⟨hnone, heq⟩ := fixedLine_cases pkg roots line
  · obtain ⟨after, rfl, hprefixed⟩ := himports.exists_keyword
    rw [heq, hprefixed]
    grind
  · rwa [heq]

/-- The condition is enough. -/
theorem fixes_of_stable (hcontent : '\r' ∉ content) (h : Stable pkg roots content) :
    Fixes pkg roots content := by
  intro order horder
  by_cases huntouched : Untouched roots content
  · have hreturn := universalNewlines_eq_self hcontent
    rw [fixedContent_eq_self huntouched, hreturn]
    exact ⟨fixContent_of_untouched horder h.template huntouched, fun again hagain =>
      fixContent_of_untouched hagain h.template huntouched⟩
  · obtain ⟨hpkg, hpkgReturn⟩ := h.readBack huntouched
    have hreturn := universalNewlines_eq_self
      (not_mem_fixedContent roots hpkgReturn hcontent)
    rw [fixContent_eq hpkg, runSteps_eq_fixedContent horder h.lines, hreturn]
    refine ⟨rfl, fun again hagain => ?_⟩
    rw [fixContent_eq hpkg, runSteps_of_untouched hagain (untouched_fixedContent h.lines)]

end stable

/-! ## Fixed texts are stable -/

section fixes
variable {pkg : Text} {pieces : List Piece} {roots : List ProtoRoot} {content : Text}

theorem fixedLine_grows (pkg : Text) (roots : List ProtoRoot) {line : Text} (hline : '\n' ∉ line) :
    ∃ n, Grows ((pkg ++ ['.']).map .char) n line (fixedLine pkg roots line) ∧
      (n = 0 → Untouched roots line) := by
  obtain ⟨form, root, hroot, himports, heq⟩ | ⟨hnone, heq⟩ := fixedLine_cases pkg roots line
  · obtain ⟨after, rfl, hprefixed⟩ := himports.exists_keyword
    have hinsert : Grows ((pkg ++ ['.']).map .char) 1 (form.keyword ++ after)
        (form.keyword ++ expand ((pkg ++ ['.']).map .char) [] none ++ after) :=
      .insert _ _ (by simp) (by simp)
    rw [expand_map_char] at hinsert
    rw [heq, hprefixed]
    exact ⟨1, by simpa using hinsert, by simp⟩
  · rw [heq]
    exact ⟨0, .refl _ _, fun _ => (untouched_iff_of_not_mem hline).mpr hnone⟩

theorem fixedContent_grows (pkg : Text) (roots : List ProtoRoot) (content : Text) :
    ∃ n, Grows ((pkg ++ ['.']).map .char) n content (fixedContent pkg roots content) ∧
      (n = 0 → Untouched roots content) := by
  induction content using lines_induction with
  | last line hline =>
    rw [fixedContent_of_not_mem hline]
    exact fixedLine_grows pkg roots hline
  | more line after hline ih =>
    obtain ⟨n, hgrows, hnone⟩ := fixedLine_grows pkg roots hline
    obtain ⟨n', hgrows', hnone'⟩ := ih
    rw [fixedContent_append_break hline]
    exact ⟨n + n', hgrows.append_break hgrows', fun hn =>
      untouched_append_break.mpr ⟨hnone (by omega), hnone' (by omega)⟩⟩

/-- Where the template adds no line end, a text is fixed line by line. -/
theorem runSteps_line_of_eq {steps : List (Form × ProtoRoot)} (hpkg : '\n' ∉ pkg)
    (hbreak : '\n' ∉ literals pieces)
    (hfixed : runSteps pieces steps content = fixedContent pkg roots content) :
    ∀ line ∈ content.splitOn '\n', runSteps pieces steps line = fixedLine pkg roots line := by
  induction content using lines_induction with
  | last line hline =>
    rw [fixedContent_of_not_mem hline] at hfixed
    exact (forall_mem_lines_of_not_mem hline).mpr hfixed
  | more line after hline ih =>
    rw [fixedContent_append_break hline, runSteps_append_break] at hfixed
    have hrun : '\n' ∉ runSteps pieces steps line := by
      obtain ⟨n, hgrows, -⟩ := runSteps_grows steps pieces line
      exact hgrows.not_mem hbreak hline
    have hline' : '\n' ∉ fixedLine pkg roots line := by
      obtain ⟨n, hgrows, -⟩ := fixedLine_grows pkg roots hline
      exact hgrows.not_mem (by rw [literals_map_char]; simpa using hpkg) hline
    have hlines := congrArg (List.splitOn '\n') hfixed
    rw [lines_append_break hrun, lines_append_break hline', List.cons.injEq] at hlines
    rw [hlines.1] at hfixed
    exact (forall_mem_lines_append_break hline).mpr
      ⟨hlines.1, ih (List.cons.inj (List.append_cancel_left hfixed)).2⟩

/-- A template that adds no line end and fixes a line says what it stands for: the last replacement
of the line begins the package. -/
theorem literal_of_inline (hpkg : parsePackage pkg = some pieces) (hbreak : '\n' ∉ literals pieces)
    (hfixed : runSteps pieces (steps roots) content = fixedContent pkg roots content)
    (hcontent : ¬ Untouched roots content) : pieces = (pkg ++ ['.']).map .char := by
  have hshrinks := (parsed_of_parseTemplate hpkg).shrinks
  have hpkgBreak : '\n' ∉ pkg ++ ['.'] := by
    rw [← List.count_eq_zero] at hbreak ⊢
    have := hshrinks.breaks
    omega
  have hlines := runSteps_line_of_eq (by simpa using hpkgBreak) hbreak hfixed
  simp only [Untouched, not_forall, not_not] at hcontent
  obtain ⟨line, hmem, form, root, hroot, himports⟩ := hcontent
  have hline := hlines line hmem
  have hlineBreak := (not_mem_of_mem_lines hmem).1
  obtain ⟨after, rfl, hprefixed⟩ := himports.exists_keyword
  obtain ⟨after', hafter', hinserted⟩ :=
    runSteps_line hbreak (steps roots) form after hlineBreak (.inl rfl)
  rw [fixedLine_of_imports hroot himports, hprefixed, hafter'] at hline
  obtain rfl := List.append_cancel_left hline
  obtain heq | ⟨word, group, more, hword, hgroup, heq⟩ := hinserted
  · have := congrArg List.length heq
    simp at this
    omega
  · have hsplit : expand pieces word group ++ more = pkg ++ ['.'] := by
      refine List.append_cancel_right (?_ : _ ++ after = _ ++ after)
      rw [← heq]
      simp
    have hsame := expand_eq_of_isPrefix hword hgroup hpkg (.inr List.getLast?_concat)
      ⟨more, hsplit⟩
    have hcount := count_expand hword hgroup pieces
    rw [hsame] at hcount
    have hliteral := hshrinks.literal hcount.symm
    rw [hliteral, (expand_eq_literals hliteral).symm.trans hsame]

theorem untouched_fixedLine (h : Untouched roots (fixedContent pkg roots content)) :
    ∀ line ∈ content.splitOn '\n', Untouched roots (fixedLine pkg roots line) := by
  induction content using lines_induction with
  | last line hline =>
    rw [fixedContent_of_not_mem hline] at h
    exact (forall_mem_lines_of_not_mem hline).mpr h
  | more line after hline ih =>
    rw [fixedContent_append_break hline, untouched_append_break] at h
    exact (forall_mem_lines_append_break hline).mpr ⟨h.1, ih h.2⟩

/-- A second run that keeps a fixed text has nothing to replace, and nothing is lost when the text
is read again. -/
theorem rerun_adds_nothing {m n : ℕ} (hcontent : '\r' ∉ content)
    (hfixed : Grows ((pkg ++ ['.']).map .char) n content (fixedContent pkg roots content))
    (hrerun : Grows ((pkg ++ ['.']).map .char) m
      (universalNewlines (fixedContent pkg roots content)) (fixedContent pkg roots content))
    (hpos : 0 < n) : '\r' ∉ pkg ∧ m = 0 := by
  have hfirst := hfixed.count '\r' (by decide)
  have hsecond := hrerun.count '\r' (by decide)
  have hlength := hrerun.length (by rw [literals_map_char])
  have hlost := length_le_universalNewlines (fixedContent pkg roots content)
  rw [literals_map_char] at hfirst hsecond hlength
  rw [List.count_eq_zero.mpr hcontent] at hfirst
  rw [List.count_eq_zero.mpr (not_mem_universalNewlines _)] at hsecond
  have hfew : (pkg ++ ['.']).count '\r' < (pkg ++ ['.']).length := by
    have : pkg.count '\r' ≤ pkg.length := List.count_le_length
    simp
    omega
  have hnone : (pkg ++ ['.']).count '\r' = 0 := by
    by_contra hreturn
    obtain rfl : m = n :=
      Nat.eq_of_mul_eq_mul_right (Nat.pos_of_ne_zero hreturn) (by omega)
    have := Nat.mul_lt_mul_of_pos_left hfew hpos
    omega
  rw [hnone] at hfirst
  have hzero : m * (pkg ++ ['.']).length = 0 := by omega
  refine ⟨fun hmem => List.count_eq_zero.mp hnone (List.mem_append_left _ hmem), ?_⟩
  simpa using hzero

/-- What a second run keeps was written without carriage returns, and has no import left. -/
theorem untouched_of_rerun (hcontent : '\r' ∉ content)
    (hpkg : pieces = (pkg ++ ['.']).map .char)
    (hrerun : runSteps pieces (steps roots) (universalNewlines (fixedContent pkg roots content)) =
      fixedContent pkg roots content) (hsome : ¬ Untouched roots content) :
    '\r' ∉ pkg ∧ Untouched roots (fixedContent pkg roots content) := by
  subst hpkg
  obtain ⟨n, hfixed, hn⟩ := fixedContent_grows pkg roots content
  obtain ⟨m, hrun, hm⟩ := runSteps_grows (steps roots) ((pkg ++ ['.']).map .char)
    (universalNewlines (fixedContent pkg roots content))
  rw [hrerun] at hrun
  have hpos : 0 < n := Nat.pos_of_ne_zero fun hzero => hsome (hn hzero)
  obtain ⟨hreturn, hzero⟩ := rerun_adds_nothing hcontent hfixed hrun hpos
  rw [universalNewlines_eq_self (not_mem_fixedContent roots hreturn hcontent)] at hm
  exact ⟨hreturn, fun line hline form root hroot =>
    hm hzero (form, root) (mem_steps.mpr hroot) line hline⟩

theorem stable_of_fixes (hcontent : '\r' ∉ content) (h : Fixes pkg roots content) :
    Stable pkg roots content := by
  obtain ⟨hfirst, hagain⟩ := h roots (.refl _)
  have hsecond := hagain roots (.refl _)
  have htemplate : roots ≠ [] → parsePackage pkg ≠ none := by
    intro hroots hnone
    rw [fixContent_eq_none hnone hroots] at hfirst
    cases hfirst
  by_cases huntouched : Untouched roots content
  · refine ⟨htemplate, fun hsome => absurd huntouched hsome, ?_⟩
    exact fun line hline form root hroot himports =>
      absurd himports (huntouched line hline form root hroot)
  have hroots : roots ≠ [] := by
    rintro rfl
    exact huntouched fun line _ form root hroot => by cases hroot
  obtain ⟨pieces, hpkg⟩ := Option.ne_none_iff_exists'.mp (htemplate hroots)
  rw [fixContent_eq hpkg, Option.some_inj] at hfirst hsecond
  obtain ⟨m, hrun, -⟩ := runSteps_grows (steps roots) pieces content
  obtain ⟨n, hfixed, hn⟩ := fixedContent_grows pkg roots content
  rw [hfirst] at hrun
  have hpos : 0 < n := Nat.pos_of_ne_zero fun hzero => huntouched (hn hzero)
  have hliteral : pieces = (pkg ++ ['.']).map .char := by
    obtain hliteral | hinline := literal_or_inline hpkg hrun hfixed hpos
    · exact hliteral
    · exact literal_of_inline hpkg hinline hfirst huntouched
  obtain ⟨hreturn, hdone⟩ := untouched_of_rerun hcontent hliteral hsecond huntouched
  refine ⟨htemplate, fun _ => ⟨hliteral ▸ hpkg, hreturn⟩, ?_⟩
  intro line hline form root hroot himports
  rw [← fixedLine_of_imports hroot himports]
  exact untouched_fixedLine hdone line hline

/-- One text is fixed, in every order and by every second run, exactly when it is stable. -/
theorem fixes_iff (hcontent : '\r' ∉ content) :
    Fixes pkg roots content ↔ Stable pkg roots content :=
  ⟨stable_of_fixes hcontent, fixes_of_stable hcontent⟩

end fixes

end BaseWebService.Proto
