import BaseWebService.Proto.Files

/-!
# Packages made of names

The package of an ordinary output path is a row of names. Then only its first name counts: a fixed
line imports from a root again when the root is called like it, or, for `import`, when the first
name begins with the root's name and `_pb2`.

## Main results

* `imports_prefixed_iff` : the roots that a fixed line imports from.
* `stable_iff_of_names` : which files are fixed, read off the first name of the package.
* `mainFixes_of_names` : a package that no root is mistaken for.
-/

namespace BaseWebService.Proto

open Library Template

/-- The root is mistaken for the package that begins with the name. -/
def Form.Mistakes (root : ProtoRoot) (first : Text) : Form → Prop
  | .fromForm => root.name = first
  | .importForm => root.name = first ∨ root.name ++ text "_pb2" <+: first

section names
variable {form : Form} {root root' : ProtoRoot} {first line : Text} {more : List Text}
  {roots : List ProtoRoot} {content : Text}

theorem IsName.not_mem {name : Text} (h : IsName name) {c : Char} (hc : isWordChar c = false) :
    c ∉ name := fun hmem => by simp [h.2 c hmem] at hc

/-- Behind the package and its dot, the root's name is one more name. -/
theorem package_append (more : List Text) (name : Text) (names : List Text) :
    dotted more ++ '.' :: (name ++ dotted names) = dotted (more ++ name :: names) := by
  simp [dotted]

theorem takeWhile_word {name rest : Text} (hname : ∀ c ∈ name, isWordChar c) {c : Char}
    (hc : isWordChar c = false) : (name ++ c :: rest).takeWhile isWordChar = name := by
  rw [List.takeWhile_append_of_pos hname, List.takeWhile_cons, hc]
  simp

/-- Two names that end at other characters are the same. -/
theorem eq_of_append {name name' rest rest' : Text} (hname : IsName name) (hname' : IsName name')
    {c c' : Char} (hc : isWordChar c = false) (hc' : isWordChar c' = false)
    (h : name ++ c :: rest = name' ++ c' :: rest') : name = name' ∧ c = c' := by
  have hword := congrArg (List.takeWhile isWordChar) h
  rw [takeWhile_word hname.2 hc, takeWhile_word hname'.2 hc'] at hword
  subst hword
  exact ⟨rfl, (List.cons.inj (List.append_cancel_left h)).1⟩

theorem modulePath_append (form : Form) (root : ProtoRoot) (names : List Text) (rest : Text) :
    form.modulePath root names ++ form.behind ++ rest =
      root.name ++ (dotted names ++ (match form with
        | .fromForm => text " import"
        | .importForm => text "_pb2") ++ rest) := by
  cases form <;> simp [Form.modulePath, Form.behind]

theorem mistakes_of_imports (hroot' : IsName root'.name) (hfirst : IsName first) {after : Text}
    (h : form.Imports root' (form.keyword ++ (first ++ '.' :: after))) :
    form.Mistakes root' first := by
  obtain ⟨names, rest, hnames, hsplit⟩ := h
  rw [List.append_assoc, List.append_assoc] at hsplit
  have hsplit := List.append_cancel_left hsplit
  rw [← List.append_assoc, modulePath_append] at hsplit
  cases names with
  | nil =>
    cases form with
    | fromForm =>
      obtain ⟨-, hdot⟩ := eq_of_append hfirst hroot' (show isWordChar '.' = false from rfl)
        (show isWordChar ' ' = false from rfl) hsplit
      cases hdot
    | importForm =>
      have hword : ∀ c ∈ root'.name ++ text "_pb2", isWordChar c := by
        rw [List.forall_mem_append]
        exact ⟨hroot'.2, by decide⟩
      have hspan := congrArg (List.takeWhile isWordChar) hsplit
      rw [takeWhile_word hfirst.2 rfl, show dotted [] = [] from rfl, List.nil_append,
        ← List.append_assoc, List.takeWhile_append_of_pos hword] at hspan
      exact .inr ⟨_, hspan.symm⟩
  | cons name names =>
    have hdot : isWordChar '.' = false := rfl
    obtain ⟨hsame, -⟩ := eq_of_append hfirst hroot' hdot hdot hsplit
    cases form with
    | fromForm => exact hsame.symm
    | importForm => exact .inl hsame.symm

theorem imports_prefixed_of_mistakes (hroot : IsName root.name)
    (hmore : ∀ name ∈ more, IsName name) {names : List Text} (hnames : ∀ name ∈ names, IsName name)
    (rest : Text) (h : form.Mistakes root' first) :
    form.Imports root' (form.keyword ++ (first ++ dotted more ++
      '.' :: (form.modulePath root names ++ form.behind ++ rest))) := by
  have hall : ∀ name ∈ more ++ root.name :: names, IsName name := by
    rw [List.forall_mem_append, List.forall_mem_cons]
    exact ⟨hmore, hroot, hnames⟩
  have hpackage := package_append more root.name names
  have hsame : root'.name = first → form.Imports root' (form.keyword ++ (first ++ dotted more ++
      '.' :: (form.modulePath root names ++ form.behind ++ rest))) := by
    rintro rfl
    refine ⟨more ++ root.name :: names, rest, hall, ?_⟩
    cases form <;>
      simp only [Form.modulePath, Form.behind, ← hpackage, List.append_assoc, List.cons_append]
  cases form with
  | fromForm => exact hsame h
  | importForm =>
    obtain h | ⟨after, rfl⟩ := h
    · exact hsame h
    · exact ⟨[], _, by simp, by simp [Form.modulePath, Form.behind, dotted]; rfl⟩

theorem imports_prefixed_iff (hroot : IsName root.name) (hroot' : IsName root'.name)
    (hfirst : IsName first) (hmore : ∀ name ∈ more, IsName name) (h : form.Imports root line) :
    form.Imports root' (form.prefixed (first ++ dotted more) line) ↔
      form.Mistakes root' first := by
  obtain ⟨names, rest, hnames, rfl⟩ := h
  have hprefixed : form.prefixed (first ++ dotted more)
      (form.keyword ++ form.modulePath root names ++ form.behind ++ rest) =
        form.keyword ++ (first ++ dotted more ++
          '.' :: (form.modulePath root names ++ form.behind ++ rest)) := by
    rw [List.append_assoc, List.append_assoc, form.prefixed_keyword]
    simp only [List.append_assoc]
  rw [hprefixed]
  refine ⟨fun h => ?_, imports_prefixed_of_mistakes hroot hmore hnames rest⟩
  obtain ⟨after, hafter⟩ : ∃ after, first ++ dotted more ++
      '.' :: (form.modulePath root names ++ form.behind ++ rest) = first ++ '.' :: after := by
    cases more with
    | nil => exact ⟨_, by simp [dotted]; rfl⟩
    | cons name more => exact ⟨_, by simp [dotted]; rfl⟩
  rw [hafter] at h
  exact mistakes_of_imports hroot' hfirst h

theorem not_mem_package (hfirst : IsName first) (hmore : ∀ name ∈ more, IsName name) {a : Char}
    (ha : a ∈ specials) : a ∉ first ++ dotted more := by
  have hword : ∀ a ∈ specials, isWordChar a = false := by decide
  have := hfirst.not_mem (hword a ha)
  have := not_mem_dotted ha hmore
  simp_all

theorem readBack_of_names (hfirst : IsName first) (hmore : ∀ name ∈ more, IsName name) :
    ReadBack (first ++ dotted more) := by
  have hslash : '\\' ∉ (first ++ dotted more) ++ ['.'] := by
    have := not_mem_package hfirst hmore (show '\\' ∈ specials by decide)
    simp_all
  refine ⟨?_, not_mem_package hfirst hmore (by decide)⟩
  rw [parsePackage, ← List.append_nil ((first ++ dotted more) ++ ['.']),
    parseTemplate_append_of_not_mem hslash, parseTemplate_nil, Option.map_some, List.append_nil,
    List.append_nil]

theorem stableLine_iff_of_names (hfirst : IsName first) (hmore : ∀ name ∈ more, IsName name)
    (hroots : ∀ root ∈ roots, IsName root.name) (hline : '\n' ∉ line) :
    StableLine (first ++ dotted more) roots line ↔
      ∀ form, ∀ root ∈ roots, Form.Imports form root line →
        ∀ root' ∈ roots, ¬ form.Mistakes root' first := by
  refine forall_congr' fun form => forall₃_congr fun root hroot himports => ?_
  obtain ⟨after, hafter, hprefixed⟩ := himports.exists_keyword
  have hbreak : '\n' ∉ form.prefixed (first ++ dotted more) line := by
    have hpkg := not_mem_package hfirst hmore (show '\n' ∈ specials by decide)
    rw [hprefixed]
    rw [hafter] at hline
    grind
  rw [untouched_iff_of_not_mem hbreak]
  constructor
  · intro h root' hroot' hmistakes
    exact h form root' hroot' ((imports_prefixed_iff (hroots root hroot) (hroots root' hroot')
      hfirst hmore himports).mpr hmistakes)
  · intro h form' root' hroot' himports'
    obtain ⟨_, hafter', -⟩ := himports'.exists_keyword
    obtain ⟨rfl, -⟩ := Form.keyword_inj (hprefixed (first ++ dotted more) ▸ hafter')
    exact h root' hroot' ((imports_prefixed_iff (hroots root hroot) (hroots root' hroot')
      hfirst hmore himports).mp himports')

theorem stable_iff_of_names (hfirst : IsName first) (hmore : ∀ name ∈ more, IsName name)
    (hroots : ∀ root ∈ roots, IsName root.name) :
    Stable (first ++ dotted more) roots content ↔
      ∀ line ∈ content.splitOn '\n', ∀ form, ∀ root ∈ roots, Form.Imports form root line →
        ∀ root' ∈ roots, ¬ form.Mistakes root' first := by
  have hread := readBack_of_names hfirst hmore
  have hlines : (∀ line ∈ content.splitOn '\n', StableLine (first ++ dotted more) roots line) ↔ _ :=
    forall₂_congr fun line hline =>
      stableLine_iff_of_names hfirst hmore hroots (not_mem_of_mem_lines hline).1
  rw [← hlines]
  exact ⟨fun h => h.lines, fun h => ⟨fun _ => by rw [hread.1]; simp, fun _ => hread, h⟩⟩

/-- Where no root is mistaken for the package, every run is right, whatever the files are. -/
theorem mainFixes_of_names {protoOutDir : Text} (hfirst : IsName first)
    (hmore : ∀ name ∈ more, IsName name) (hroots : ∀ root ∈ roots, IsName root.name)
    (hpkg : packagePrefix protoOutDir = first ++ dotted more)
    (hclear : ∀ root ∈ roots, ∀ form, ¬ Form.Mistakes root first form) (files : List ProtoFile) :
    MainFixes protoOutDir roots files := by
  rw [mainFixes_iff_fixes, hpkg]
  intro file _ _
  rw [fixes_iff (not_mem_universalNewlines file.content),
    stable_iff_of_names hfirst hmore hroots]
  exact fun line _ form root _ _ root' hroot' => hclear root' hroot' form

/-- The output directory of the clients' code. -/
example : packagePrefix (text "../core/grpc_client/generated") =
    text "core" ++ dotted [text "grpc_client", text "generated"] := by decide

end names

end BaseWebService.Proto
