import BaseWebService.Proto.FixProtoImports

/-!
# The lines that a substitution changes

Both statements of the loop have one shape: a keyword, a module path below the root, and what stands
behind it. A line that begins so gets the replacement's text between keyword and module; every other
line is kept, and no line sees another.

## Main results

* `fixContent_eq` : a run is a sequence of passes, if the template has a meaning.
* `pass_of_imports`, `pass_of_not_imports` : one pass over one line.
* `runSteps_append_break` : a text is fixed line by line.
-/

namespace BaseWebService.Proto

open Library Template

/-- A module name that the patterns let follow a dot. -/
def IsName (name : Text) : Prop := name ≠ [] ∧ ∀ c ∈ name, isWordChar c

def dotted (names : List Text) : Text := (names.map ('.' :: ·)).flatten

inductive Form where
  | fromForm
  | importForm

namespace Form

def keyword : Form → Text
  | .fromForm => text "from "
  | .importForm => text "import "

/-- What the group captures. -/
def modulePath (root : ProtoRoot) (names : List Text) : Form → Text
  | .fromForm => root.name ++ dotted names
  | .importForm => root.name ++ dotted names ++ text "_pb2"

def behind : Form → Text
  | .fromForm => text " import"
  | .importForm => []

/-- `from <root>... import`, or `import <root>..._pb2`, at the beginning of the line. -/
def Imports (form : Form) (root : ProtoRoot) (line : Text) : Prop :=
  ∃ names rest, (∀ name ∈ names, IsName name) ∧
    line = form.keyword ++ form.modulePath root names ++ form.behind ++ rest

def body (root : ProtoRoot) : Form → Regex
  | .fromForm => .seq (.literal (text "from ")) <|
    .seq (.group (.seq (.literal root.name) dottedNames)) (.literal (text " import"))
  | .importForm => .seq (.literal (text "import ")) <|
    .group (.seq (.literal root.name) (.seq dottedNames (.literal (text "_pb2"))))

/-- The replacement, where `pieces` stand for the package and its dot. -/
def template (pieces : List Piece) (form : Form) : List Piece :=
  form.keyword.map .char ++ pieces ++ .group 1 :: form.behind.map .char

def pass (root : ProtoRoot) (pieces : List Piece) (content : Text) (form : Form) : Text :=
  (Regex.seq .lineStart (form.body root)).sub (expand (form.template pieces)) content

end Form

/-! ## Templates -/

/-- The dot behind the package is read as part of it. -/
def parsePackage (pkg : Text) : Option (List Piece) := parseTemplate (pkg ++ ['.'])

theorem parseTemplate_form (form : Form) (pkg reference : Text)
    (hreference : parseTemplate reference = some (.group 1 :: form.behind.map .char)) :
    parseTemplate (form.keyword ++ pkg ++ '.' :: reference) =
      (parsePackage pkg).map (form.template ·) := by
  have hkeyword : '\\' ∉ form.keyword := by cases form <;> decide
  rw [List.append_assoc, parseTemplate_append_of_not_mem hkeyword, parseTemplate_append_dot,
    parsePackage, hreference]
  cases parseTemplate (pkg ++ ['.']) with
  | none => rfl
  | some pieces => simp [Form.template]

theorem fixRoot_eq (pkg content : Text) (root : ProtoRoot) :
    fixRoot pkg content root = (parsePackage pkg).map fun pieces =>
      Form.importForm.pass root pieces (Form.fromForm.pass root pieces content) := by
  have hfrom : parseTemplate (text "from " ++ pkg ++ text ".\\1 import") = _ :=
    parseTemplate_form .fromForm pkg (text "\\1 import") rfl
  have himport : parseTemplate (text "import " ++ pkg ++ text ".\\1") = _ :=
    parseTemplate_form .importForm pkg (text "\\1") rfl
  rw [fixRoot, reSub, hfrom]
  cases hpkg : parsePackage pkg with
  | none => rfl
  | some pieces =>
    simp only [Option.map_some, Option.bind_some, reSub, himport, hpkg]
    rfl

/-- The passes of a run, in their order. -/
def steps (roots : List ProtoRoot) : List (Form × ProtoRoot) :=
  roots.flatMap fun root => [(.fromForm, root), (.importForm, root)]

theorem mem_steps {roots : List ProtoRoot} {form : Form} {root : ProtoRoot} :
    (form, root) ∈ steps roots ↔ root ∈ roots := by
  cases form <;> simp [steps]

def runSteps (pieces : List Piece) (steps : List (Form × ProtoRoot)) (content : Text) : Text :=
  steps.foldl (fun content step => step.1.pass step.2 pieces content) content

theorem runSteps_steps_cons (pieces : List Piece) (root : ProtoRoot) (roots : List ProtoRoot)
    (content : Text) : runSteps pieces (steps (root :: roots)) content =
      runSteps pieces (steps roots)
        (Form.importForm.pass root pieces (Form.fromForm.pass root pieces content)) := by
  rw [steps, List.flatMap_cons, runSteps, List.foldl_append, List.foldl_cons, List.foldl_cons,
    List.foldl_nil]
  rfl

theorem fixContent_eq {pkg : Text} {pieces : List Piece} (hpkg : parsePackage pkg = some pieces)
    (roots : List ProtoRoot) (content : Text) :
    fixContent pkg roots content = some (runSteps pieces (steps roots) content) := by
  induction roots generalizing content with
  | nil => rfl
  | cons root roots ih =>
    rw [fixContent, List.foldlM_cons, fixRoot_eq, hpkg, Option.map_some, runSteps_steps_cons, ← ih]
    rfl

theorem fixContent_eq_none {pkg : Text} (hpkg : parsePackage pkg = none) {roots : List ProtoRoot}
    (hroots : roots ≠ []) (content : Text) : fixContent pkg roots content = none := by
  obtain ⟨root, roots, rfl⟩ := List.exists_cons_of_ne_nil hroots
  rw [fixContent, List.foldlM_cons, fixRoot_eq, hpkg]
  rfl

/-! ## What the patterns match -/

theorem plain_dottedNames :
    dottedNames.Plain fun word => ∃ names, (∀ name ∈ names, IsName name) ∧ word = dotted names := by
  refine ((Regex.plain_char _).seq (Regex.plain_plus_char isWordChar)).star.congr fun word =>
    ⟨?_, ?_⟩
  · rintro ⟨words, hwords, rfl⟩
    induction words with
    | nil => exact ⟨[], by simp, rfl⟩
    | cons w words ih =>
      obtain ⟨⟨⟨dot, name, ⟨c, hc, rfl⟩, hname, rfl⟩, -⟩, hmore⟩ := List.forall_mem_cons.mp hwords
      obtain ⟨names, hnames, heq⟩ := ih hmore
      obtain rfl := of_decide_eq_true hc
      exact ⟨name :: names, List.forall_mem_cons.mpr ⟨hname, hnames⟩,
        congrArg ('.' :: name ++ ·) heq⟩
  · rintro ⟨names, hnames, rfl⟩
    refine ⟨names.map ('.' :: ·), fun w hw => ?_, rfl⟩
    obtain ⟨name, hname, rfl⟩ := List.mem_map.mp hw
    exact ⟨⟨['.'], name, ⟨'.', rfl, rfl⟩, hnames name hname, rfl⟩, List.cons_ne_nil _ _⟩

theorem matches_body_iff {form : Form} {root : ProtoRoot} {prev : Option Char} {word : Text}
    {group : Option Text} : (form.body root).Matches prev word group ↔
      ∃ names, (∀ name ∈ names, IsName name) ∧
        word = form.keyword ++ form.modulePath root names ++ form.behind ∧
        group = some (form.modulePath root names) := by
  cases form with
  | fromForm =>
    have hmodule := (Regex.plain_literal root.name).seq plain_dottedNames
    rw [Form.body, Regex.matches_seq_iff]
    simp only [Regex.plain_literal _ _ _ _, Regex.matches_seq_iff, hmodule.matches_group_iff]
    constructor
    · rintro ⟨_, _, _, _, ⟨rfl, rfl⟩, ⟨_, _, _, _, ⟨⟨_, _, rfl, ⟨names, hnames, rfl⟩, rfl⟩, rfl⟩,
        ⟨rfl, rfl⟩, rfl, rfl⟩, rfl, rfl⟩
      exact ⟨names, hnames, by simp [Form.keyword, Form.modulePath, Form.behind], rfl⟩
    · rintro ⟨names, hnames, rfl, rfl⟩
      exact ⟨_, _, _, _, ⟨rfl, rfl⟩, ⟨_, _, _, _, ⟨⟨_, _, rfl, ⟨names, hnames, rfl⟩, rfl⟩, rfl⟩,
        ⟨rfl, rfl⟩, rfl, rfl⟩, by simp [Form.keyword, Form.modulePath, Form.behind], rfl⟩
  | importForm =>
    have hmodule := (Regex.plain_literal root.name).seq
      (plain_dottedNames.seq (Regex.plain_literal (text "_pb2")))
    rw [Form.body, Regex.matches_seq_iff]
    simp only [Regex.plain_literal _ _ _ _, hmodule.matches_group_iff]
    constructor
    · rintro ⟨_, _, _, _, ⟨rfl, rfl⟩, ⟨⟨_, _, rfl, ⟨_, _, ⟨names, hnames, rfl⟩, rfl, rfl⟩, rfl⟩,
        rfl⟩, rfl, rfl⟩
      exact ⟨names, hnames, by simp [Form.keyword, Form.modulePath, Form.behind],
        by simp [Form.modulePath]⟩
    · rintro ⟨names, hnames, rfl, rfl⟩
      exact ⟨_, _, _, _, ⟨rfl, rfl⟩, ⟨⟨_, _, rfl, ⟨_, _, ⟨names, hnames, rfl⟩, rfl, rfl⟩, rfl⟩,
        rfl⟩, by simp [Form.keyword, Form.modulePath, Form.behind], by simp [Form.modulePath]⟩

/-! ## Characters -/

/-- The characters that no statement of the two forms has before the end of its module path. -/
def specials : List Char := ['\\', '\n', '\r']

section specials
variable {a : Char} {root : ProtoRoot} {names : List Text}

theorem not_mem_dotted (ha : a ∈ specials) (hnames : ∀ name ∈ names, IsName name) :
    a ∉ dotted names := by
  intro hmem
  obtain ⟨w, hw, ha'⟩ := List.mem_flatten.mp hmem
  obtain ⟨name, hname, rfl⟩ := List.mem_map.mp hw
  have hword : ∀ a ∈ specials, a ≠ '.' ∧ isWordChar a = false := by decide
  obtain ⟨hdot, hno⟩ := hword a ha
  have := (hnames name hname).2 a
  grind

theorem not_mem_modulePath (ha : a ∈ specials) (hnames : ∀ name ∈ names, IsName name)
    (form : Form) : a ∉ form.modulePath root names := by
  have hroot : a ∉ root.name := by
    intro hmem
    have hid : ∀ a ∈ specials, isIdentifierChar a = false := by decide
    exact absurd (root.identifier a hmem) (by simp [hid a ha])
  have hdotted := not_mem_dotted ha hnames
  have hpb : ∀ a ∈ specials, a ∉ text "_pb2" := by decide
  have := hpb a ha
  cases form <;> simp only [Form.modulePath, List.mem_append] <;> grind

theorem not_mem_statement (ha : a ∈ specials) (hnames : ∀ name ∈ names, IsName name)
    (form : Form) : a ∉ form.keyword ++ form.modulePath root names ++ form.behind := by
  have hkeyword : ∀ a ∈ specials, a ∉ form.keyword ∧ a ∉ form.behind := by
    cases form <;> decide
  have hmodule : a ∉ form.modulePath root names := not_mem_modulePath ha hnames form
  have := hkeyword a ha
  grind

end specials

/-! ## One pass -/

section pass
variable {form : Form} {root : ProtoRoot} {pieces : List Piece}

theorem body_noBreak (form : Form) (root : ProtoRoot) : (form.body root).NoBreak := by
  have hliteral : ∀ text : Text, '\n' ∉ text → (Regex.literal text).NoBreak := by
    intro text htext
    induction text with
    | nil => trivial
    | cons c text ih =>
      rw [List.mem_cons, not_or] at htext
      exact ⟨decide_eq_false htext.1, ih htext.2⟩
  have hroot : '\n' ∉ root.name := by
    intro hmem
    exact absurd (root.identifier _ hmem) (by decide)
  have hdotted : dottedNames.NoBreak := ⟨rfl, rfl, rfl⟩
  cases form with
  | fromForm =>
    exact ⟨hliteral _ (by decide), ⟨hliteral _ hroot, hdotted⟩, hliteral _ (by decide)⟩
  | importForm =>
    exact ⟨hliteral _ (by decide), hliteral _ hroot, hdotted, hliteral _ (by decide)⟩

theorem body_nonEmpty (form : Form) (root : ProtoRoot) : (form.body root).NonEmpty := by
  intro prev group h
  obtain ⟨names, -, hword, -⟩ := matches_body_iff.mp h
  cases form <;> simp [Form.keyword, text] at hword

theorem pass_append_break (line after : Text) :
    form.pass root pieces (line ++ '\n' :: after) =
      form.pass root pieces line ++ '\n' :: form.pass root pieces after := by
  have hbreak : (Regex.seq .lineStart (form.body root)).NoBreak := ⟨trivial, body_noBreak form root⟩
  refine Regex.sub_append_break ?_ hbreak _ _
  intro prev group h
  exact body_nonEmpty form root _ _ (Regex.matches_lineStart_iff.mp h).2

/-- A line of the form gets the replacement between its keyword and its module path. -/
theorem pass_of_imports (pieces : List Piece) {line : Text} (hline : '\n' ∉ line)
    (h : form.Imports root line) :
    ∃ names rest, (∀ name ∈ names, IsName name) ∧
      line = form.keyword ++ (form.modulePath root names ++ form.behind ++ rest) ∧
      form.pass root pieces line = form.keyword ++ expand pieces
        (form.keyword ++ form.modulePath root names ++ form.behind)
        (some (form.modulePath root names)) ++
          (form.modulePath root names ++ form.behind ++ rest) := by
  obtain ⟨names₀, rest₀, hnames₀, hsplit⟩ := h
  have hmem : ⟨_, rest₀, _⟩ ∈ (form.body root).run none line :=
    (Regex.mem_run _ _ _ _).mpr ⟨hsplit, matches_body_iff.mpr ⟨names₀, hnames₀, rfl, rfl⟩⟩
  cases hm : ((form.body root).run none line).head? with
  | none => simp [List.head?_eq_none_iff.mp hm] at hmem
  | some m =>
    obtain ⟨hline', hmatches⟩ := (Regex.mem_run _ _ _ _).mp (List.mem_of_mem_head? hm)
    obtain ⟨names, hnames, hword, hgroup⟩ := matches_body_iff.mp hmatches
    refine ⟨names, m.rest, hnames, ?_, ?_⟩
    · rw [hline', hword, List.append_assoc, List.append_assoc, List.append_assoc]
    · rw [Form.pass, Regex.sub_line_of_some (body_nonEmpty form root) hline hm, Form.template,
        hword, hgroup, ← List.singleton_append, expand_append, expand_append, expand_append,
        expand_map_char, expand_map_char]
      simp [expand]

/-- Any other line is kept. -/
theorem pass_of_not_imports {line : Text} (hline : '\n' ∉ line) (h : ¬ form.Imports root line) :
    form.pass root pieces line = line := by
  refine Regex.sub_line_of_none hline ?_
  rw [List.head?_eq_none_iff, List.eq_nil_iff_forall_not_mem]
  intro m hm
  obtain ⟨hline, hmatches⟩ := (Regex.mem_run _ _ _ _).mp hm
  obtain ⟨names, hnames, hword, -⟩ := matches_body_iff.mp hmatches
  exact h ⟨names, m.rest, hnames, hword ▸ hline⟩

end pass

/-! ## Texts by their lines -/

/-- A text is one line, or a line before another text. -/
theorem lines_induction {P : Text → Prop} (last : ∀ line, '\n' ∉ line → P line)
    (more : ∀ line after, '\n' ∉ line → P after → P (line ++ '\n' :: after)) (content : Text) :
    P content := by
  induction hn : content.length using Nat.strongRecOn generalizing content with
  | ind n ih =>
    by_cases hmem : '\n' ∈ content
    · obtain ⟨line, after, rfl, hline⟩ := List.eq_append_cons_of_mem hmem
      exact more line after hline (ih after.length (by grind) after rfl)
    · exact last content hmem

theorem lines_of_not_mem {line : Text} (hline : '\n' ∉ line) : line.splitOn '\n' = [line] :=
  List.splitOn_eq_singleton hline

theorem lines_append_break {line : Text} (hline : '\n' ∉ line) (after : Text) :
    (line ++ '\n' :: after).splitOn '\n' = line :: after.splitOn '\n' :=
  List.splitOn_append_cons_self_of_not_mem hline after

theorem forall_mem_lines_of_not_mem {P : Text → Prop} {line : Text} (hline : '\n' ∉ line) :
    (∀ part ∈ line.splitOn '\n', P part) ↔ P line := by
  rw [lines_of_not_mem hline, List.forall_mem_singleton]

theorem forall_mem_lines_append_break {P : Text → Prop} {line after : Text}
    (hline : '\n' ∉ line) : (∀ part ∈ (line ++ '\n' :: after).splitOn '\n', P part) ↔
      P line ∧ ∀ part ∈ after.splitOn '\n', P part := by
  rw [lines_append_break hline, List.forall_mem_cons]

theorem not_mem_of_mem_lines {content line : Text} (h : line ∈ content.splitOn '\n') :
    '\n' ∉ line ∧ ∀ c ∈ line, c ∈ content := by
  induction content using lines_induction with
  | last content hcontent =>
    rw [lines_of_not_mem hcontent, List.mem_singleton] at h
    subst h
    exact ⟨hcontent, fun c hc => hc⟩
  | more first after hfirst ih =>
    rw [lines_append_break hfirst, List.mem_cons] at h
    obtain rfl | h := h
    · exact ⟨hfirst, fun c hc => List.mem_append_left _ hc⟩
    · exact ⟨(ih h).1, fun c hc => List.mem_append_right _ (List.mem_cons_of_mem _ ((ih h).2 c hc))⟩

/-- Each line by itself. -/
def mapLines (f : Text → Text) (content : Text) : Text :=
  ['\n'].intercalate ((content.splitOn '\n').map f)

section mapLines
variable {f : Text → Text} {line : Text}

theorem mapLines_of_not_mem (hline : '\n' ∉ line) : mapLines f line = f line := by
  rw [mapLines, lines_of_not_mem hline, List.map_singleton, List.intercalate_singleton]

theorem mapLines_append_break (hline : '\n' ∉ line) (after : Text) :
    mapLines f (line ++ '\n' :: after) = f line ++ '\n' :: mapLines f after := by
  rw [mapLines, lines_append_break hline, List.map_cons, List.intercalate_cons_of_ne_nil]
  · rw [List.append_assoc]
    rfl
  · simp [List.splitOn_ne_nil]

end mapLines

/-! ## Whole runs -/

section runSteps
variable {pieces : List Piece} {steps : List (Form × ProtoRoot)}

@[simp] theorem runSteps_nil (content : Text) : runSteps pieces [] content = content := rfl

@[simp] theorem runSteps_cons (step : Form × ProtoRoot) (content : Text) :
    runSteps pieces (step :: steps) content =
      runSteps pieces steps (step.1.pass step.2 pieces content) := rfl

/-- A text is fixed line by line. -/
theorem runSteps_append_break (line after : Text) :
    runSteps pieces steps (line ++ '\n' :: after) =
      runSteps pieces steps line ++ '\n' :: runSteps pieces steps after := by
  induction steps generalizing line after with
  | nil => rfl
  | cons step steps ih =>
    rw [runSteps_cons, pass_append_break, ih]
    rfl

theorem pass_eq_self {form : Form} {root : ProtoRoot} {content : Text}
    (h : ∀ line ∈ content.splitOn '\n', ¬ form.Imports root line) :
    form.pass root pieces content = content := by
  induction content using lines_induction with
  | last line hline =>
    exact pass_of_not_imports hline ((forall_mem_lines_of_not_mem hline).mp h)
  | more line after hline ih =>
    obtain ⟨hfirst, hafter⟩ := (forall_mem_lines_append_break hline).mp h
    rw [pass_append_break, pass_of_not_imports hline hfirst, ih hafter]

theorem runSteps_eq_self {content : Text}
    (h : ∀ step ∈ steps, ∀ line ∈ content.splitOn '\n', ¬ step.1.Imports step.2 line) :
    runSteps pieces steps content = content := by
  induction steps with
  | nil => rfl
  | cons step steps ih =>
    obtain ⟨hfirst, hmore⟩ := List.forall_mem_cons.mp h
    rw [runSteps_cons, pass_eq_self hfirst, ih hmore]

end runSteps

end BaseWebService.Proto
