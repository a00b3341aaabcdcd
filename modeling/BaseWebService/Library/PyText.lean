import Mathlib.Tactic.Common
import Mathlib.Data.List.TakeWhile
import Mathlib.Data.List.Infix

/-!
# Python text on Lean strings

The string operations of Python that a model of Python code needs, defined on the list of
characters so that they reduce in the kernel: `int()` on text, `str.strip()`, and `str.replace`,
`str.endswith` and `in` where a key is compared with words.
-/

namespace BaseWebService.Library

/-- For the characters of a list, it is the list that is gone through and not all characters. -/
instance (priority := high) decidableForallMemChar (cs : List Char) (p : Char → Prop)
    [DecidablePred p] : Decidable (∀ c ∈ cs, p c) := List.decidableBAll p cs

/-- `str.isspace` for one character: the Unicode white space Python strips. -/
def pyIsSpace (c : Char) : Bool :=
  let n := c.toNat
  (0x09 ≤ n && n ≤ 0x0d) || (0x1c ≤ n && n ≤ 0x20) || n == 0x85 || n == 0xa0 || n == 0x1680 ||
    (0x2000 ≤ n && n ≤ 0x200a) || n == 0x2028 || n == 0x2029 || n == 0x202f || n == 0x205f ||
    n == 0x3000

/-- `text.strip()`. -/
def pyStrip (text : String) : String :=
  String.ofList ((text.toList.dropWhile pyIsSpace).reverse.dropWhile pyIsSpace).reverse

/-- `text.replace(old, new)` for single characters. -/
def pyReplace (old new : Char) (text : String) : String :=
  String.ofList (text.toList.map fun c => if c = old then new else c)

/-- `text.endswith(tail)`. -/
def pyEndsWith (text tail : String) : Bool := decide (tail.toList <:+ text.toList)

/-- `word in text`. -/
def pyContains (text word : String) : Bool := decide (word.toList <:+: text.toList)

/-- `int(text)` for decimal text, with an optional sign; `none` is a `ValueError`. -/
def pyInt (text : String) : Option Int :=
  match (pyStrip text).toList with
  | '-' :: ds => (digits ds).map fun n => -(n : Int)
  | '+' :: ds => (digits ds).map (↑)
  | ds => (digits ds).map (↑)
where
  digits (ds : List Char) : Option Nat :=
    if ds ≠ [] ∧ ds.all Char.isDigit then some (Nat.ofDigitChars 10 ds 0) else none

/-- `str(n)`. -/
def pyStr (n : Int) : String := toString n

theorem pyIsSpace_of_isDigit {c : Char} (h : c.isDigit = true) : pyIsSpace c = false := by
  have hlo : 48 ≤ c.toNat := by simp [Char.isDigit, UInt32.le_iff_toNat_le] at h; exact h.1
  have hhi : c.toNat ≤ 57 := by simp [Char.isDigit, UInt32.le_iff_toNat_le] at h; exact h.2
  simp [pyIsSpace]; omega

/-- Text without white space at its ends is stripped to itself. -/
theorem pyStrip_of_ends {text : String}
    (hhead : ∀ c, text.toList.head? = some c → pyIsSpace c = false)
    (hlast : ∀ c, text.toList.getLast? = some c → pyIsSpace c = false) : pyStrip text = text := by
  have keep : ∀ l : List Char, (∀ c, l.head? = some c → pyIsSpace c = false) →
      l.dropWhile pyIsSpace = l := by
    intro l hl
    cases l with
    | nil => rfl
    | cons c cs => simp [hl c rfl]
  rw [pyStrip, keep _ hhead, keep _ (by simpa using hlast), List.reverse_reverse,
    String.ofList_toList]

/-- Text without white space is stripped to itself. -/
theorem pyStrip_eq_self {text : String} (h : ∀ c ∈ text.toList, pyIsSpace c = false) :
    pyStrip text = text :=
  pyStrip_of_ends (fun c hc => h c (List.mem_of_mem_head? hc))
    fun c hc => h c (List.mem_of_getLast? hc)

/-- Nothing but white space, or nothing at all. -/
def Blank (cs : List Char) : Prop := ∀ c ∈ cs, pyIsSpace c = true

/-- Stripping leaves nothing of blank text, and of no other. -/
theorem pyStrip_eq_empty_iff {text : String} : pyStrip text = "" ↔ Blank text.toList := by
  have hempty : pyStrip text = "" ↔ Blank (text.toList.dropWhile pyIsSpace).reverse := by
    rw [pyStrip, ← String.toList_inj, String.toList_ofList, String.toList_empty,
      List.reverse_eq_nil_iff, List.dropWhile_eq_nil_iff]
    rfl
  rw [hempty]
  constructor
  · intro hblank c hc
    rw [← List.takeWhile_append_dropWhile (p := pyIsSpace) (l := text.toList)] at hc
    rcases List.mem_append.mp hc with hc | hc
    · exact List.mem_takeWhile_imp hc
    · exact hblank c (List.mem_reverse.mpr hc)
  · intro hblank c hc
    exact hblank c (List.dropWhile_subset _ (List.mem_reverse.mp hc))

section strip
variable {before after : List Char} {text : String}

/-- White space around a text is stripped with what the text has of its own. -/
theorem pyStrip_of_toList {padded : String} (hbefore : Blank before) (hafter : Blank after)
    (h : padded.toList = before ++ text.toList ++ after) : pyStrip padded = pyStrip text := by
  have hblank : ∀ l : List Char, Blank l → l.dropWhile pyIsSpace = [] := fun l hl =>
    List.dropWhile_eq_nil_iff.mpr hl
  have hback : Blank after.reverse := fun c hc => hafter c (List.mem_reverse.mp hc)
  rw [pyStrip, h, List.append_assoc, List.dropWhile_append_of_pos hbefore, List.dropWhile_append,
    pyStrip]
  congr 2
  split
  · rename_i hnil
    rw [hblank _ hafter, List.isEmpty_iff.mp hnil]
  · rw [List.reverse_append, List.dropWhile_append_of_pos hback]

/-- A text is what is left of it with white space around. -/
theorem exists_toList_eq_pyStrip (text : String) : ∃ before after, Blank before ∧ Blank after ∧
    text.toList = before ++ (pyStrip text).toList ++ after := by
  have hsplit := (List.takeWhile_append_dropWhile (p := pyIsSpace) (l := text.toList)).symm
  have hsplit' := (List.takeWhile_append_dropWhile (p := pyIsSpace)
    (l := (text.toList.dropWhile pyIsSpace).reverse)).symm
  refine ⟨text.toList.takeWhile pyIsSpace,
    ((text.toList.dropWhile pyIsSpace).reverse.takeWhile pyIsSpace).reverse,
    fun c hc => List.mem_takeWhile_imp hc,
    fun c hc => List.mem_takeWhile_imp (List.mem_reverse.mp hc), ?_⟩
  have hback := congrArg List.reverse hsplit'
  rw [List.reverse_reverse, List.reverse_append] at hback
  rw [pyStrip, String.toList_ofList, List.append_assoc, ← hback, ← hsplit]

end strip

section replace
variable {old new : Char}

/-- Where the new character does not occur, nothing was replaced. -/
theorem eq_of_map_replace {l word : List Char} (hword : new ∉ word)
    (h : (l.map fun c => if c = old then new else c) = word) : l = word := by
  have hsame : ∀ c ∈ l, (if c = old then new else c) = id c := by
    intro c hc
    split
    · rename_i hold
      refine absurd ?_ hword
      rw [← h]
      exact List.mem_map.mpr ⟨c, hc, if_pos hold⟩
    · rfl
  rwa [List.map_congr_left hsame, List.map_id] at h

theorem not_mem_pyReplace (hne : old ≠ new) (text : String) :
    old ∉ (pyReplace old new text).toList := by
  rw [pyReplace, String.toList_ofList, List.mem_map]
  rintro ⟨c, -, hc⟩
  split at hc
  · exact hne hc.symm
  · contradiction

theorem eq_of_pyReplace_eq_self {text word : String} (hword : new ∉ word.toList)
    (h : pyReplace old new text = word) : text = word := by
  have hl := congrArg String.toList h
  rw [pyReplace, String.toList_ofList] at hl
  exact String.toList_inj.mp (eq_of_map_replace hword hl)

/-- A word without the new character was there before the replacement. -/
theorem pyContains_of_pyReplace {text word : String} (hword : new ∉ word.toList)
    (h : pyContains (pyReplace old new text) word = true) : pyContains text word = true := by
  obtain ⟨before, after, h⟩ := of_decide_eq_true h
  rw [pyReplace, String.toList_ofList] at h
  obtain ⟨rest, l₃, hrest, hl, -⟩ := List.map_eq_append_iff.mp h.symm
  obtain ⟨l₁, l₂, rfl, -, hl₂⟩ := List.map_eq_append_iff.mp hl
  rw [eq_of_map_replace hword hl₂] at hrest
  exact decide_eq_true ⟨l₁, l₃, hrest.symm⟩

/-- One new character in a text was itself or the old one. -/
theorem eq_of_pyReplace_eq {text left right : String} (hleft : new ∉ left.toList)
    (hright : new ∉ right.toList)
    (h : pyReplace old new text = left ++ String.singleton new ++ right) :
    text = left ++ String.singleton new ++ right ∨
      text = left ++ String.singleton old ++ right := by
  have hl := congrArg String.toList h
  simp only [pyReplace, String.toList_ofList, String.toList_append, String.toList_singleton] at hl
  obtain ⟨l, l₃, htext, hl, hl₃⟩ := List.map_eq_append_iff.mp hl
  obtain ⟨l₁, l₂, rfl, hl₁, hl₂⟩ := List.map_eq_append_iff.mp hl
  obtain ⟨c, l₄, rfl, hc, hl₄⟩ := List.map_eq_cons_iff.mp hl₂
  obtain rfl : l₄ = [] := List.map_eq_nil_iff.mp hl₄
  rw [eq_of_map_replace hleft hl₁, eq_of_map_replace hright hl₃] at htext
  by_cases hold : c = old
  · right
    rw [← String.toList_inj, htext, hold]
    simp
  · left
    rw [if_neg hold] at hc
    rw [← String.toList_inj, htext, hc]
    simp

end replace

theorem isDigit_of_mem_toDigits {n : Nat} {c : Char} (h : c ∈ Nat.toDigits 10 n) :
    c.isDigit = true := Nat.isDigit_of_mem_toDigits (by decide) (by decide) h

theorem pyInt_digits_toDigits (n : Nat) : pyInt.digits (Nat.toDigits 10 n) = some n := by
  have hall : ∀ c ∈ Nat.toDigits 10 n, c.isDigit = true := fun c hc => isDigit_of_mem_toDigits hc
  simpa [pyInt.digits, Nat.toDigits_ne_nil, Nat.ofDigitChars_ten_toDigits] using hall

theorem toList_pyStr_ofNat (m : ℕ) : (pyStr (Int.ofNat m)).toList = Nat.toDigits 10 m :=
  Nat.toList_repr

theorem toList_pyStr_negSucc (m : ℕ) :
    (pyStr (Int.negSucc m)).toList = '-' :: Nat.toDigits 10 (m + 1) := by
  show ("-" ++ (m + 1).repr).toList = _
  simp [Nat.toList_repr]

/-- There is no white space in the text of a number. -/
theorem pyStrip_pyStr (n : Int) : pyStrip (pyStr n) = pyStr n := by
  refine pyStrip_eq_self fun c hc => ?_
  cases n with
  | ofNat m =>
    rw [toList_pyStr_ofNat] at hc
    exact pyIsSpace_of_isDigit (isDigit_of_mem_toDigits hc)
  | negSucc m =>
    rw [toList_pyStr_negSucc] at hc
    rcases List.mem_cons.mp hc with rfl | hc
    · decide
    · exact pyIsSpace_of_isDigit (isDigit_of_mem_toDigits hc)

/-- Reading back the text of a number gives the number. -/
@[simp] theorem pyInt_pyStr (n : Int) : pyInt (pyStr n) = some n := by
  cases n with
  | ofNat m =>
    rw [pyInt, pyStrip_pyStr, toList_pyStr_ofNat]
    -- A digit is never a sign, so only the unsigned branch is taken.
    split
    · rename_i ds heq
      exact absurd (isDigit_of_mem_toDigits (by simp [heq] : '-' ∈ Nat.toDigits 10 m)) (by decide)
    · rename_i ds heq
      exact absurd (isDigit_of_mem_toDigits (by simp [heq] : '+' ∈ Nat.toDigits 10 m)) (by decide)
    · simp [pyInt_digits_toDigits]
  | negSucc m =>
    rw [pyInt, pyStrip_pyStr, toList_pyStr_negSucc]
    simp [pyInt_digits_toDigits, Int.negSucc_eq]

theorem pyStr_injective : Function.Injective pyStr := fun m n h => by
  simpa using congrArg pyInt h

theorem pyStr_ne_empty (n : Int) : pyStr n ≠ "" := by
  intro h
  have hread := pyInt_pyStr n
  rw [h] at hread
  have hempty : pyInt "" = none := by decide
  simp [hempty] at hread

example : pyInt "None" = none := by decide
example : pyInt " -12 " = some (-12) := by decide

end BaseWebService.Library
