import BaseWebService.Library.PyNumber
import BaseWebService.Library.Substitution

/-!
# The log of executed statements

`receive_before_cursor_execute` logs a statement with its parameters filled in, one `str.replace`
after the other. What it logs is compared with the statement whose placeholders are all filled in at
once.
-/

namespace BaseWebService.Database

open Library

/-- A parameter. A float has its `str()`, which is never empty, and so has any other object. -/
inductive SqlParam where
  | none
  | bool (b : Bool)
  | int (n : ℤ)
  | float (text : String) (nonempty : text ≠ "")
  | other (text : String)

/-- `str(n)` is refused for too many digits. -/
def SqlParam.Printable : SqlParam → Prop
  | .int n => (Nat.toDigits 10 n.natAbs).length ≤ maxStrDigits
  | _ => True

def SqlParam.IsBool : SqlParam → Prop
  | .bool _ => True
  | _ => False

instance (param : SqlParam) : Decidable param.Printable := by
  cases param <;> unfold SqlParam.Printable <;> infer_instance

def formatSqlParam : SqlParam → Except PyError String
  | .none => .ok "NULL"
  -- A bool is an int, so it never gets as far as the test that is meant for it.
  | .bool b => .ok (if b then "True" else "False")
  | .int n =>
    if (Nat.toDigits 10 n.natAbs).length ≤ maxStrDigits then .ok (pyStr n)
    else .error ⟨.valueError, none⟩
  | .float text _ => .ok text
  | .other text => .ok ("'" ++ text ++ "'")

inductive Parameters where
  | none
  | positional (params : List SqlParam)
  | named (entries : List (String × SqlParam))

/-- `statement.replace("\n", " ").strip()`. -/
def sqlMsg (statement : String) : String := pyStrip (pyReplace '\n' ' ' statement)

def receiveBeforeCursorExecute (isEnableLogSql : Bool) (statement : String)
    (parameters : Parameters) : Except PyError (Option String) :=
  if isEnableLogSql then do
    let msg ← match parameters with
      | .none => pure (sqlMsg statement)
      | .positional params =>
        -- From the last to the first, so that `$1` does not get hold of `$10`.
        (params.zipIdx 1).reverse.foldlM (fun msg (param, i) => do
          let val ← formatSqlParam param
          return pyReplaceAll ("$" ++ pyStr i) val msg) (sqlMsg statement)
      | .named entries =>
        entries.foldlM (fun msg (key, param) => do
          let val ← formatSqlParam param
          return pyReplaceAll ("%(" ++ key ++ ")s") val msg) (sqlMsg statement)
    return some ("Executing SQL: " ++ msg)
  else return none

/-! ## What is meant -/

/-- The literal of a parameter. -/
def sqlLiteral : SqlParam → String
  | .none => "NULL"
  | .bool b => if b then "TRUE" else "FALSE"
  | .int n => pyStr n
  | .float text _ => text
  | .other text => "'" ++ text ++ "'"

/-- What the formatter makes of a parameter; its literal where it raises. -/
def SqlParam.formatted (param : SqlParam) : String :=
  match formatSqlParam param with
  | .ok val => val
  | .error _ => sqlLiteral param

/-- What stands for a parameter in a statement. -/
inductive Placeholder where
  | position (i : ℕ) (param : SqlParam)
  | name (key : String) (param : SqlParam)

namespace Placeholder

def param : Placeholder → SqlParam
  | .position _ param => param
  | .name _ param => param

def text : Placeholder → String
  | .position i _ => "$" ++ pyStr i
  | .name key _ => "%(" ++ key ++ ")s"

def word (k : Placeholder) : List Char := k.text.toList

def formatted (k : Placeholder) : List Char := k.param.formatted.toList

def literal (k : Placeholder) : List Char := (sqlLiteral k.param).toList

end Placeholder

/-- The placeholders, in the order in which they are looked for. -/
def Parameters.placeholders : Parameters → List Placeholder
  | .none => []
  | .positional params => (params.zipIdx 1).reverse.map fun (param, i) => .position i param
  | .named entries => entries.map fun (key, param) => .name key param

/-- The statement with its placeholders. -/
def carved (statement : String) (ks : List Placeholder) : List (Char ⊕ Placeholder) :=
  carve Placeholder.word ks (sqlMsg statement).toList

/-- The statement in which every placeholder is replaced by the literal of its parameter, all at
once. -/
def simultaneous (statement : String) (parameters : Parameters) : String :=
  String.ofList (fill Placeholder.literal (carved statement parameters.placeholders))

/-- What is logged is the statement with its placeholders replaced at once, and nothing that came
from a parameter is rewritten. -/
def LoggedAsExecuted (statement : String) (parameters : Parameters) : Prop :=
  receiveBeforeCursorExecute true statement parameters =
      .ok (some ("Executing SQL: " ++ simultaneous statement parameters)) ∧
    UntouchedRun Placeholder.word Placeholder.formatted parameters.placeholders
      (marked false (sqlMsg statement).toList)

/-- In the statement with the placeholders in `done` filled in at once, `k` is found only where it
is made of letters of the statement. -/
def FoundInStatement (statement : String) (done : List Placeholder) (k : Placeholder) : Prop :=
  Untouched k.word (fillMarked Placeholder.formatted (carved statement done))

/-! ## One replacement after the other -/

section log
variable {statement : String} {parameters : Parameters} {k : Placeholder}

theorem formatted_int (n : ℤ) : (SqlParam.int n).formatted = pyStr n := by
  rw [SqlParam.formatted, formatSqlParam]
  by_cases hlength : (Nat.toDigits 10 n.natAbs).length ≤ maxStrDigits
  · rw [if_pos hlength]
  · rw [if_neg hlength, sqlLiteral]

theorem formatSqlParam_eq (param : SqlParam) : formatSqlParam param =
    if param.Printable then .ok param.formatted else .error ⟨.valueError, none⟩ := by
  cases param with
  | int n =>
    rw [formatted_int, formatSqlParam]
    by_cases hlength : (Nat.toDigits 10 n.natAbs).length ≤ maxStrDigits
    · rw [if_pos hlength, if_pos (show (SqlParam.int n).Printable from hlength)]
    · rw [if_neg hlength, if_neg (show ¬(SqlParam.int n).Printable from hlength)]
  | _ => rfl

/-- The formatter writes the literal of all parameters but booleans. -/
theorem formatted_eq_iff (param : SqlParam) :
    param.formatted = sqlLiteral param ↔ ¬ param.IsBool := by
  cases param with
  | bool b => cases b <;> exact iff_of_false (by decide) fun h => h trivial
  | int n => exact iff_of_true (formatted_int n) id
  | none | float text nonempty | other text => exact iff_of_true rfl id

theorem length_formatted (param : SqlParam) :
    param.formatted.toList.length = (sqlLiteral param).toList.length := by
  cases param with
  | bool b => cases b <;> simp [SqlParam.formatted, formatSqlParam, sqlLiteral]
  | int n => rw [formatted_int, sqlLiteral]
  | none | float text nonempty | other text => rfl

theorem formatted_ne_empty (param : SqlParam) : param.formatted ≠ "" := by
  cases param with
  | none => decide
  | bool b => cases b <;> decide
  | int n =>
    rw [formatted_int]
    exact pyStr_ne_empty n
  | float text nonempty => exact nonempty
  | other text =>
    intro h
    have hchars := congrArg String.toList h
    simp [SqlParam.formatted, formatSqlParam] at hchars

theorem Placeholder.formatted_ne_nil (k : Placeholder) : k.formatted ≠ [] := fun h =>
  formatted_ne_empty k.param (String.toList_eq_nil_iff.mp h)

theorem Placeholder.word_ne_nil (k : Placeholder) : k.word ≠ [] := by
  cases k <;> simp [Placeholder.word, Placeholder.text]

/-- The loops of the source, over the placeholders. -/
theorem foldlM_placeholders (ks : List Placeholder) (msg : String) :
    (ks.foldlM (fun msg k => do
      let val ← formatSqlParam k.param
      return pyReplaceAll k.text val msg) msg : Except PyError String) =
      if ∀ k ∈ ks, k.param.Printable then
        .ok (String.ofList (substitute Placeholder.word Placeholder.formatted ks msg.toList))
      else .error ⟨.valueError, none⟩ := by
  induction ks generalizing msg with
  | nil => simp [substitute, pure, Except.pure]
  | cons k ks ih =>
    rw [List.foldlM_cons, formatSqlParam_eq]
    by_cases hprintable : k.param.Printable
    · have hstep : (pyReplaceAll k.text k.param.formatted msg).toList =
          replaceFrom id k.word k.formatted 0 msg.toList := String.toList_ofList
      simp only [List.forall_mem_cons, hprintable, true_and]
      refine (ih _).trans ?_
      rw [hstep]
      rfl
    · simp only [List.forall_mem_cons, hprintable, false_and, if_false]
      rfl

theorem receive_eq : receiveBeforeCursorExecute true statement parameters =
    if ∀ k ∈ parameters.placeholders, k.param.Printable then
      .ok (some ("Executing SQL: " ++ String.ofList (substitute Placeholder.word
        Placeholder.formatted parameters.placeholders (sqlMsg statement).toList)))
    else .error ⟨.valueError, none⟩ := by
  have hall := foldlM_placeholders parameters.placeholders (sqlMsg statement)
  have hsource : receiveBeforeCursorExecute true statement parameters =
      (parameters.placeholders.foldlM (fun msg k => do
        let val ← formatSqlParam k.param
        return pyReplaceAll k.text val msg) (sqlMsg statement) : Except PyError String).map
          fun msg => some ("Executing SQL: " ++ msg) := by
    cases parameters with
    | none => rfl
    | positional params =>
      rw [Parameters.placeholders, List.foldlM_map]
      rfl
    | named entries =>
      rw [Parameters.placeholders, List.foldlM_map]
      rfl
  rw [hsource, hall]
  split <;> rfl

/-- Nothing filled in is rewritten exactly if each placeholder is found in the statement only. -/
theorem untouchedRun_placeholders_iff (statement : String) (ks : List Placeholder) :
    UntouchedRun Placeholder.word Placeholder.formatted ks
        (marked false (sqlMsg statement).toList) ↔
      ∀ done k later, ks = done ++ k :: later → FoundInStatement statement done k :=
  untouchedRun_iff Placeholder.formatted_ne_nil Placeholder.word_ne_nil

/-- What is logged is what is executed exactly if all numbers can be printed, no boolean has a
placeholder in the statement, and each placeholder, once those that are looked for before it are
filled in, is found only where it is made of letters of the statement. -/
theorem logged_as_executed_iff (statement : String) (parameters : Parameters) :
    LoggedAsExecuted statement parameters ↔
      (∀ k ∈ parameters.placeholders, k.param.Printable) ∧
      (∀ k, .inr k ∈ carved statement parameters.placeholders → ¬ k.param.IsBool) ∧
      ∀ done k later, parameters.placeholders = done ++ k :: later →
        FoundInStatement statement done k := by
  rw [LoggedAsExecuted, untouchedRun_placeholders_iff, receive_eq]
  have hlength : ∀ k : Placeholder, k.formatted.length = k.literal.length :=
    fun k => length_formatted k.param
  have hbool : ∀ k : Placeholder, k.formatted = k.literal ↔ ¬ k.param.IsBool := fun k => by
    rw [← formatted_eq_iff, Placeholder.formatted, Placeholder.literal, String.toList_inj]
  have hmessage : (∀ done k later, parameters.placeholders = done ++ k :: later →
      FoundInStatement statement done k) →
      (substitute Placeholder.word Placeholder.formatted parameters.placeholders
          (sqlMsg statement).toList = fill Placeholder.literal
            (carved statement parameters.placeholders) ↔
        ∀ k, .inr k ∈ carved statement parameters.placeholders → ¬ k.param.IsBool) := by
    intro hfound
    have huntouched := (untouchedRun_placeholders_iff statement _).mpr hfound
    rw [substitute_eq_fill Placeholder.formatted_ne_nil Placeholder.word_ne_nil huntouched,
      carved, fill_eq_fill_iff hlength]
    exact forall₂_congr fun k _ => hbool k
  constructor
  · rintro ⟨hlogged, hfound⟩
    split at hlogged
    · rename_i hprintable
      refine ⟨hprintable, (hmessage hfound).mp ?_, hfound⟩
      have hchars := congrArg String.toList (Option.some.inj (Except.ok.inj hlogged))
      simp only [String.toList_append, simultaneous, String.toList_ofList] at hchars
      exact List.append_cancel_left hchars
    · cases hlogged
  · rintro ⟨hprintable, hnone, hfound⟩
    rw [if_pos hprintable, (hmessage hfound).mpr hnone]
    exact ⟨rfl, hfound⟩

/-- Text that looks like a placeholder that is yet to come, and a boolean. -/
theorem parameter_rewritten :
    receiveBeforeCursorExecute true "SELECT $1, $2" (.positional [.other "x", .other "$1"]) =
        .ok (some "Executing SQL: SELECT 'x', ''x''") ∧
      simultaneous "SELECT $1, $2" (.positional [.other "x", .other "$1"]) = "SELECT 'x', '$1'" ∧
      receiveBeforeCursorExecute true "SELECT $1" (.positional [.bool true]) =
        .ok (some "Executing SQL: SELECT True") ∧
      simultaneous "SELECT $1" (.positional [.bool true]) = "SELECT TRUE" := by
  decide +kernel

end log

/-! ## Placeholders in one pass -/

section scan
variable {ks : List Placeholder}

/-- Numbered placeholders are found in one pass over the statement; where several begin, it is the
one with the largest number. -/
theorem carved_positional (statement : String) (params : List SqlParam) :
    carved statement (Parameters.positional params).placeholders =
      scan Placeholder.word (Parameters.positional params).placeholders 0
        (sqlMsg statement).toList := by
  refine carve_eq_scan (a := '$') (fun k hk => ?_) _
  obtain ⟨⟨param, i⟩, -, rfl⟩ := List.mem_map.mp hk
  have htext : (pyStr i).toList = Nat.toDigits 10 i := Nat.toList_repr
  refine ⟨Nat.toDigits 10 i, ?_, fun hmem => ?_⟩
  · simp [Placeholder.word, Placeholder.text, htext]
  · exact absurd (isDigit_of_mem_toDigits hmem) (by decide)

/-- And so are named ones, if no name has a percent sign in it. -/
theorem carved_named (statement : String) {entries : List (String × SqlParam)}
    (hnames : ∀ e ∈ entries, '%' ∉ e.1.toList) :
    carved statement (Parameters.named entries).placeholders =
      scan Placeholder.word (Parameters.named entries).placeholders 0
        (sqlMsg statement).toList := by
  refine carve_eq_scan (a := '%') (fun k hk => ?_) _
  obtain ⟨⟨key, param⟩, hmem, rfl⟩ := List.mem_map.mp hk
  refine ⟨'(' :: (key.toList ++ [')', 's']), ?_, ?_⟩
  · simp [Placeholder.word, Placeholder.text]
  · simpa using hnames _ hmem

end scan

end BaseWebService.Database
