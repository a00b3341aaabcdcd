import Mathlib.Data.Nat.Digits.Lemmas
import BaseWebService.Library.PyBytes
import BaseWebService.Library.PyText

/-!
# Numbers in Python text

Floats, the decimal digits of Unicode 15, `str.isdecimal`, `str.isdigit`, and `int()` on any text in
base 10 or 16: white space around it, a sign, a prefix in base 16, and digits that single
underscores may group. In a base that is not a power of two there is a limit on the number of
digits.
-/

namespace BaseWebService.Library

/-! ## Exceptions -/

inductive ErrorType where
  | valueError
  | typeError
  | overflowError
  | attributeError
  deriving DecidableEq

/-- What is raised, with the text that the source gives it; `none` where the text is that of the
standard library. -/
structure PyError where
  type : ErrorType
  message : Option String
  deriving DecidableEq

/-! ## Floats -/

/-- A `float`; a finite one is `mantissa * 2 ^ exponent`. -/
inductive PyFloat where
  | nan
  | inf (negative : Bool)
  | finite (mantissa exponent : ℤ)
  deriving DecidableEq

/-- `int(x)`, towards zero. -/
def PyFloat.toInt : PyFloat → Except PyError ℤ
  | .nan => .error ⟨.valueError, none⟩
  | .inf _ => .error ⟨.overflowError, none⟩
  | .finite mantissa exponent =>
    if 0 ≤ exponent then .ok (mantissa * 2 ^ exponent.toNat)
    else .ok (mantissa.tdiv (2 ^ (-exponent).toNat))

/-! ## Digits -/

/-- The zeros of the runs of ten decimal digits. -/
def decimalZeros : List ℕ :=
  [0x30, 0x660, 0x6f0, 0x7c0, 0x966, 0x9e6, 0xa66, 0xae6, 0xb66, 0xbe6, 0xc66, 0xce6, 0xd66, 0xde6,
    0xe50, 0xed0, 0xf20, 0x1040, 0x1090, 0x17e0, 0x1810, 0x1946, 0x19d0, 0x1a80, 0x1a90, 0x1b50,
    0x1bb0, 0x1c40, 0x1c50, 0xa620, 0xa8d0, 0xa900, 0xa9d0, 0xa9f0, 0xaa50, 0xabf0, 0xff10, 0x104a0,
    0x10d30, 0x11066, 0x110f0, 0x11136, 0x111d0, 0x112f0, 0x11450, 0x114d0, 0x11650, 0x116c0,
    0x11730, 0x118e0, 0x11950, 0x11c50, 0x11d50, 0x11da0, 0x11f50, 0x16a60, 0x16ac0, 0x16b50,
    0x1d7ce, 0x1d7d8, 0x1d7e2, 0x1d7ec, 0x1d7f6, 0x1e140, 0x1e2f0, 0x1e4f0, 0x1e950, 0x1fbf0]

/-- The value of a decimal digit. -/
def pyDecimal (c : Char) : Option ℕ :=
  (decimalZeros.find? fun z => z ≤ c.toNat ∧ c.toNat < z + 10).map fun z => c.toNat - z

/-- Digits that are not decimal: superscripts, digits in circles and the like, from one code point
to another. -/
def otherDigits : List (ℕ × ℕ) :=
  [(0xb2, 0xb3), (0xb9, 0xb9), (0x1369, 0x1371), (0x19da, 0x19da), (0x2070, 0x2070),
    (0x2074, 0x2079), (0x2080, 0x2089), (0x2460, 0x2468), (0x2474, 0x247c), (0x2488, 0x2490),
    (0x24ea, 0x24ea), (0x24f5, 0x24fd), (0x24ff, 0x24ff), (0x2776, 0x277e), (0x2780, 0x2788),
    (0x278a, 0x2792), (0x10a40, 0x10a43), (0x10e60, 0x10e68), (0x11052, 0x1105a),
    (0x1f100, 0x1f10a)]

/-- `text.isdecimal()`. -/
def pyIsDecimal (text : String) : Bool :=
  text ≠ "" ∧ text.toList.all fun c => (pyDecimal c).isSome

/-- `text.isdigit()`. -/
def pyIsDigit (text : String) : Bool :=
  text ≠ "" ∧ text.toList.all fun c =>
    (pyDecimal c).isSome || otherDigits.any fun r => r.1 ≤ c.toNat ∧ c.toNat ≤ r.2

/-- The number that a list of digits stands for, the first one the highest. -/
def ofDigitList (base : ℕ) (ds : List ℕ) : ℕ := ds.foldl (fun n d => base * n + d) 0

/-! ## `int()` -/

/-- The value of a digit or a letter in a base. -/
def digitOf (base : ℕ) (c : Char) : Option ℕ :=
  let value :=
    if '0' ≤ c ∧ c ≤ '9' then c.toNat - '0'.toNat
    else if 'a' ≤ c ∧ c ≤ 'z' then c.toNat - 'a'.toNat + 10
    else if 'A' ≤ c ∧ c ≤ 'Z' then c.toNat - 'A'.toNat + 10
    else base
  if value < base then some value else none

/-- Digits that single underscores may group; `none` for no digits or for anything else. -/
def groupedDigits (base : ℕ) : List Char → Option (List ℕ)
  | [] => none
  | [c] => (digitOf base c).map ([·])
  | c :: c' :: cs =>
    if c' = '_' then do
      let d ← digitOf base c
      let ds ← groupedDigits base cs
      return d :: ds
    else do
      let d ← digitOf base c
      let ds ← groupedDigits base (c' :: cs)
      return d :: ds

/-- What `int()` reads for a character: white space and decimal digits outside of ASCII count, all
else out there does not. -/
def pyAscii (c : Char) : Char :=
  if c.toNat < 127 then c
  else if pyIsSpace c then ' '
  else match pyDecimal c with
    | some d => Nat.digitChar d
    | none => '?'

/-- The white space that `int()` skips once it has read the text. -/
def isIntSpace (c : Char) : Bool := c = ' ' ∨ '\t' ≤ c ∧ c ≤ '\r'

/-- The prefix that `int()` allows in base 16. -/
def dropHexPrefix : List Char → List Char
  | '0' :: 'x' :: '_' :: cs => cs
  | '0' :: 'X' :: '_' :: cs => cs
  | '0' :: 'x' :: cs => cs
  | '0' :: 'X' :: cs => cs
  | cs => cs

/-- An unsigned number. A base that is a power of two has no limit. -/
def unsignedText (base : ℕ) (cs : List Char) : Option ℕ :=
  match groupedDigits base (if base = 16 then dropHexPrefix cs else cs) with
  | some ds =>
    if base = 16 ∨ ds.length ≤ maxStrDigits then some (ofDigitList base ds) else none
  | none => none

/-- `int(text, base)` for base 10 or 16, once the text is in ASCII. -/
def readInt (base : ℕ) (cs : List Char) : Option ℤ :=
  match ((cs.dropWhile isIntSpace).reverse.dropWhile isIntSpace).reverse with
  | '-' :: ds => (unsignedText base ds).map fun n : ℕ => -(n : ℤ)
  | '+' :: ds => (unsignedText base ds).map Int.ofNat
  | ds => (unsignedText base ds).map Int.ofNat

/-- `int(text, base)` for base 10 or 16; `none` is a `ValueError`. -/
def pyIntText (base : ℕ) (text : String) : Option ℤ := readInt base (text.toList.map pyAscii)

/-! ## Digits of a number -/

section ofDigitList
variable {base d : ℕ} {ds : List ℕ}

@[simp] theorem ofDigitList_nil : ofDigitList base [] = 0 := rfl

@[simp] theorem ofDigitList_append_singleton :
    ofDigitList base (ds ++ [d]) = base * ofDigitList base ds + d := by
  simp [ofDigitList]

/-- Zeros in front count for nothing. -/
@[simp] theorem ofDigitList_replicate_append (k : ℕ) :
    ofDigitList base (List.replicate k 0 ++ ds) = ofDigitList base ds := by
  induction k with
  | zero => rfl
  | succ k ih => simpa [List.replicate_succ, ofDigitList] using ih

theorem ofDigitList_lt (hds : ∀ d ∈ ds, d < base) :
    ofDigitList base ds < base ^ ds.length := by
  induction ds using List.reverseRecOn with
  | nil => simp
  | append_singleton ds d ih =>
    have hinit := ih fun d hd => hds d (by simp [hd])
    have hlast := hds d (by simp)
    rw [ofDigitList_append_singleton, List.length_append, List.length_singleton, pow_succ]
    calc base * ofDigitList base ds + d < base * ofDigitList base ds + base := by omega
      _ = base * (ofDigitList base ds + 1) := by ring
      _ ≤ base * base ^ ds.length := Nat.mul_le_mul_left _ hinit
      _ = base ^ ds.length * base := Nat.mul_comm _ _

/-- Decimal digits read in another base: all that counts is the number they stand for. -/
theorem ofDigitList_of_decimal (hds : ∀ d ∈ ds, d < 10) :
    ofDigitList base ds = Nat.ofDigits base (Nat.digits 10 (ofDigitList 10 ds)) := by
  induction ds using List.reverseRecOn with
  | nil => simp
  | append_singleton ds d ih =>
    have hinit := ih fun d hd => hds d (by simp [hd])
    have hlast := hds d (by simp)
    rw [ofDigitList_append_singleton, ofDigitList_append_singleton, hinit]
    by_cases hzero : d = 0 ∧ ofDigitList 10 ds = 0
    · simp [hzero]
    · rw [Nat.add_comm (10 * _), Nat.digits_add 10 (by decide) d _ hlast (by omega),
        Nat.ofDigits_cons]
      simp [Nat.add_comm]

/-- Different numbers have decimal digits that differ in any larger base as well. -/
theorem ofDigits_digits_injective (hbase : 10 ≤ base) :
    Function.Injective fun n => Nat.ofDigits base (Nat.digits 10 n) := by
  have hback : ∀ n, Nat.digits base (Nat.ofDigits base (Nat.digits 10 n)) = Nat.digits 10 n := by
    intro n
    refine Nat.digits_ofDigits base (by omega) _ ?_ ?_
    · intro d hd
      have hlt := Nat.digits_lt_base (by decide) hd
      omega
    · intro hne
      exact Nat.getLast_digit_ne_zero 10 (Nat.digits_ne_nil_iff_ne_zero.mp hne)
  intro n m h
  have hdigits := congrArg (Nat.digits base) h
  simp only [hback] at hdigits
  exact Nat.digits_inj_iff.mp hdigits

end ofDigitList

/-! ## Text of decimal digits -/

section decimal
variable {c : Char} {d base : ℕ}

theorem pyDecimal_eq_some (h : pyDecimal c = some d) :
    ∃ z ∈ decimalZeros, z ≤ c.toNat ∧ c.toNat < z + 10 ∧ d = c.toNat - z := by
  obtain ⟨z, hfind, rfl⟩ := Option.map_eq_some_iff.mp h
  have hrange := List.find?_some hfind
  simp only [decide_eq_true_eq] at hrange
  exact ⟨z, List.mem_of_find?_eq_some hfind, hrange.1, hrange.2, rfl⟩

theorem pyDecimal_lt (h : pyDecimal c = some d) : d < 10 := by
  obtain ⟨z, -, hlow, hhigh, rfl⟩ := pyDecimal_eq_some h
  omega

theorem digitOf_digitChar (hbase : base = 10 ∨ base = 16) (h : d < base) :
    digitOf base (Nat.digitChar d) = some d := by
  have hten : ∀ d < 10, digitOf 10 (Nat.digitChar d) = some d := by decide
  have hsixteen : ∀ d < 16, digitOf 16 (Nat.digitChar d) = some d := by decide
  rcases hbase with rfl | rfl
  · exact hten d h
  · exact hsixteen d h

/-- No decimal digit is white space. -/
theorem pyIsSpace_of_pyDecimal (h : pyDecimal c = some d) : pyIsSpace c = false := by
  obtain ⟨z, hz, hlow, hhigh, -⟩ := pyDecimal_eq_some h
  have hapart : ∀ z ∈ decimalZeros, z = 0x30 ∨ 0xa0 < z ∧ z + 10 ≤ 0x1680 ∨
      0x1680 < z ∧ z + 10 ≤ 0x2000 ∨ 0x3000 < z := by decide
  have hz' := hapart z hz
  simp only [pyIsSpace, Bool.or_eq_false_iff, Bool.and_eq_false_iff, decide_eq_false_iff_not,
    beq_eq_false_iff_ne]
  omega

/-- A decimal digit is read as the ASCII digit of its value. -/
theorem pyAscii_of_pyDecimal (h : pyDecimal c = some d) : pyAscii c = Nat.digitChar d := by
  obtain ⟨z, hz, hlow, hhigh, hvalue⟩ := pyDecimal_eq_some h
  have hfirst : ∀ z ∈ decimalZeros, z = 0x30 ∨ 127 ≤ z := by decide
  rcases hfirst z hz with rfl | hout
  · have hchars : ∀ d < 10, (Nat.digitChar d).toNat = 0x30 + d := by decide
    have hsame : c = Nat.digitChar d := by
      apply Char.toNat_inj.mp
      rw [hchars d (pyDecimal_lt h)]
      omega
    rw [pyAscii, if_pos (by omega), hsame]
  · rw [pyAscii, if_neg (by omega), pyIsSpace_of_pyDecimal h, h]
    rfl

theorem groupedDigits_digitChar {ds : List ℕ} (hbase : base = 10 ∨ base = 16) (hne : ds ≠ [])
    (hds : ∀ d ∈ ds, d < base) : groupedDigits base (ds.map Nat.digitChar) = some ds := by
  induction ds with
  | nil => exact absurd rfl hne
  | cons d ds ih =>
    obtain ⟨hd, hds⟩ := List.forall_mem_cons.mp hds
    cases ds with
    | nil => simp [groupedDigits, digitOf_digitChar hbase hd]
    | cons d' ds =>
      have hscore : ∀ d < 16, Nat.digitChar d ≠ '_' := by decide
      have hd' := hds d' List.mem_cons_self
      have hne' := hscore d' (by omega)
      have hrest := ih (by simp) hds
      rw [List.map_cons] at hrest
      simp [groupedDigits, hne', digitOf_digitChar hbase hd, hrest]

theorem dropHexPrefix_digitChar {ds : List ℕ} (hds : ∀ d ∈ ds, d < 16) :
    dropHexPrefix (ds.map Nat.digitChar) = ds.map Nat.digitChar := by
  have hletters : ∀ d < 16, Nat.digitChar d ≠ 'x' ∧ Nat.digitChar d ≠ 'X' := by decide
  unfold dropHexPrefix
  split
  -- The second character of a prefix is a letter.
  case h_5 => rfl
  all_goals
    rename_i heq
    obtain ⟨-, ds', -, -, htail⟩ := List.map_eq_cons_iff.mp heq
    obtain ⟨d', -, rfl, hletter, -⟩ := List.map_eq_cons_iff.mp htail
    grind

theorem unsignedText_digitChar {ds : List ℕ} (hbase : base = 10 ∨ base = 16) (hne : ds ≠ [])
    (hds : ∀ d ∈ ds, d < base) : unsignedText base (ds.map Nat.digitChar) =
      if base = 16 ∨ ds.length ≤ maxStrDigits then some (ofDigitList base ds) else none := by
  have hskipped : (if base = 16 then dropHexPrefix (ds.map Nat.digitChar)
      else ds.map Nat.digitChar) = ds.map Nat.digitChar := by
    split
    · exact dropHexPrefix_digitChar fun d hd => by have := hds d hd; omega
    · rfl
  rw [unsignedText, hskipped, groupedDigits_digitChar hbase hne hds]

/-- What `int()` sees of digits: no white space and no sign. -/
theorem digitChars_plain {ds : List ℕ} (hbase : base = 10 ∨ base = 16) (hds : ∀ d ∈ ds, d < base) :
    ∀ c ∈ ds.map Nat.digitChar, isIntSpace c = false ∧ c ≠ '-' ∧ c ≠ '+' := by
  have hall : ∀ d < 16, isIntSpace (Nat.digitChar d) = false ∧
      Nat.digitChar d ≠ '-' ∧ Nat.digitChar d ≠ '+' := by decide
  intro c hc
  obtain ⟨d, hd, rfl⟩ := List.mem_map.mp hc
  have hlt := hds d hd
  exact hall d (by omega)

/-- A text that does not begin with a sign. -/
theorem readInt_of_unsigned {cs core : List Char}
    (hcore : ((cs.dropWhile isIntSpace).reverse.dropWhile isIntSpace).reverse = core)
    (hminus : core.head? ≠ some '-') (hplus : core.head? ≠ some '+') :
    readInt base cs = (unsignedText base core).map Int.ofNat := by
  rw [readInt, hcore]
  split
  · exact absurd rfl hminus
  · exact absurd rfl hplus
  · rfl

theorem trimmed_append (l l' : List Char) {core : List Char} (hcore : core ≠ [])
    (hplain : ∀ c ∈ core, isIntSpace c = false) :
    (((l ++ core ++ l').dropWhile isIntSpace).reverse.dropWhile isIntSpace).reverse =
      l.dropWhile isIntSpace ++ core ++ (l'.reverse.dropWhile isIntSpace).reverse := by
  have hfront : ∀ m n : List Char, m ≠ [] → (∀ c ∈ m, isIntSpace c = false) →
      ∀ l, (l ++ m ++ n).dropWhile isIntSpace = l.dropWhile isIntSpace ++ m ++ n := by
    intro m n hm hplain l
    induction l with
    | nil =>
      obtain ⟨c, m, rfl⟩ := List.exists_cons_of_ne_nil hm
      simp [hplain c List.mem_cons_self]
    | cons c l ih =>
      simp only [List.cons_append, List.dropWhile_cons]
      split
      · exact ih
      · rfl
  have hback := hfront core.reverse (l.dropWhile isIntSpace).reverse (by simpa using hcore)
    (by simpa using hplain) l'.reverse
  rw [hfront core l' hcore hplain, List.reverse_append, List.reverse_append, ← List.append_assoc,
    hback]
  simp

/-- Digits are read as digits, with nothing around them to skip. -/
theorem readInt_digitChar {ds : List ℕ} (hbase : base = 10 ∨ base = 16) (hne : ds ≠ [])
    (hds : ∀ d ∈ ds, d < base) : readInt base (ds.map Nat.digitChar) =
      if base = 16 ∨ ds.length ≤ maxStrDigits then some (ofDigitList base ds : ℤ) else none := by
  have hplain := digitChars_plain hbase hds
  have hcore := trimmed_append [] [] (by simpa using hne) fun c hc => (hplain c hc).1
  simp only [List.nil_append, List.append_nil, List.dropWhile_nil, List.reverse_nil] at hcore
  rw [readInt_of_unsigned hcore, unsignedText_digitChar hbase hne hds]
  · split <;> rfl
  · exact fun h => (hplain _ (List.mem_of_mem_head? h)).2.1 rfl
  · exact fun h => (hplain _ (List.mem_of_mem_head? h)).2.2 rfl

end decimal

/-- The decimal digits of a text. -/
def decimals (text : String) : List ℕ := text.toList.map fun c => (pyDecimal c).getD 0

section decimals
variable {text : String} {base : ℕ}

theorem pyDecimal_of_pyIsDecimal (h : pyIsDecimal text = true) :
    ∀ c ∈ text.toList, pyDecimal c = some ((pyDecimal c).getD 0) := by
  intro c hc
  have hall := (of_decide_eq_true h).2
  have hsome := List.all_eq_true.mp hall c hc
  obtain ⟨d, hd⟩ := Option.isSome_iff_exists.mp hsome
  simp [hd]

theorem decimals_lt (h : pyIsDecimal text = true) : ∀ d ∈ decimals text, d < 10 := by
  intro d hd
  obtain ⟨c, hc, rfl⟩ := List.mem_map.mp hd
  exact pyDecimal_lt (pyDecimal_of_pyIsDecimal h c hc)

theorem length_decimals : (decimals text).length = text.length := by
  rw [decimals, List.length_map, String.length_toList]

theorem decimals_ne_nil (h : pyIsDecimal text = true) : decimals text ≠ [] := by
  intro hnil
  refine (of_decide_eq_true h).1 (String.length_eq_zero_iff.mp ?_)
  rw [← length_decimals, hnil, List.length_nil]

/-- Digits are read as digits, with nothing around them to skip. -/
theorem map_pyAscii_decimals (h : pyIsDecimal text = true) :
    text.toList.map pyAscii = (decimals text).map Nat.digitChar := by
  rw [decimals, List.map_map]
  exact List.map_congr_left fun c hc => pyAscii_of_pyDecimal (pyDecimal_of_pyIsDecimal h c hc)

/-- `int()` of decimal digits. -/
theorem pyIntText_of_decimal (hbase : base = 10 ∨ base = 16) (h : pyIsDecimal text = true) :
    pyIntText base text =
      if base = 16 ∨ text.length ≤ maxStrDigits then some (ofDigitList base (decimals text) : ℤ)
      else none := by
  have hlt : ∀ d ∈ decimals text, d < base := fun d hd => by
    have := decimals_lt h d hd
    omega
  rw [pyIntText, map_pyAscii_decimals h, readInt_digitChar hbase (decimals_ne_nil h) hlt,
    length_decimals]

end decimals

/-! ## Text of a number -/

/-- `f"{n:0{width}d}"` for a number that is not negative. -/
def zeroPadded (width n : ℕ) : String :=
  String.ofList (List.leftpad width '0' (Nat.toDigits 10 n))

section zeros
variable {k n : ℕ} {text : String}

theorem isDigit_of_mem_padded {c : Char} (h : c ∈ List.replicate k '0' ++ Nat.toDigits 10 n) :
    c.isDigit = true := by
  rcases List.mem_append.mp h with h | h
  · rw [List.eq_of_mem_replicate h]
    rfl
  · exact isDigit_of_mem_toDigits h

theorem ofDigitChars_padded (k n : ℕ) :
    Nat.ofDigitChars 10 (List.replicate k '0' ++ Nat.toDigits 10 n) 0 = n := by
  rw [Nat.ofDigitChars_append, Nat.ofDigitChars_replicate_zero, Nat.mul_zero,
    Nat.ofDigitChars_ten_toDigits]

/-- The text of a number, with zeros in front. -/
theorem decimals_of_toDigits (h : text.toList = List.replicate k '0' ++ Nat.toDigits 10 n) :
    pyIsDecimal text = true ∧ ofDigitList 10 (decimals text) = n := by
  have hdigit : ∀ c ∈ text.toList, pyDecimal c = some (c.toNat - '0'.toNat) := by
    intro c hc
    have hisDigit : c.isDigit = true := isDigit_of_mem_padded (h ▸ hc)
    have hrange : 0x30 ≤ c.toNat ∧ c.toNat < 0x3a := by
      simp [Char.isDigit, UInt32.le_iff_toNat_le] at hisDigit
      exact ⟨hisDigit.1, Nat.lt_succ_of_le hisDigit.2⟩
    have hall : ∀ c : ℕ, c < 0x3a → 0x30 ≤ c →
        decimalZeros.find? (fun z => z ≤ c ∧ c < z + 10) = some 0x30 := by decide
    rw [pyDecimal, hall c.toNat hrange.2 hrange.1]
    rfl
  have hne : text ≠ "" := by
    rintro rfl
    simp at h
  refine ⟨decide_eq_true ⟨hne, List.all_eq_true.mpr fun c hc => by rw [hdigit c hc]; rfl⟩, ?_⟩
  have hvalues : decimals text = text.toList.map fun c => c.toNat - '0'.toNat :=
    List.map_congr_left fun c hc => by rw [hdigit c hc]; rfl
  have hread : Nat.ofDigitChars 10 text.toList 0 = n := h ▸ ofDigitChars_padded k n
  rw [hvalues, ofDigitList, List.foldl_map, ← hread]
  rfl

theorem toList_zeroPadded (width n : ℕ) : (zeroPadded width n).toList =
    List.replicate (width - (Nat.toDigits 10 n).length) '0' ++ Nat.toDigits 10 n := by
  rw [zeroPadded, String.toList_ofList, List.leftpad]

theorem length_zeroPadded {width n : ℕ} (hpos : 0 < width) (h : n < 10 ^ width) :
    (zeroPadded width n).toList.length = width := by
  have hlength := (Nat.length_toDigits_le_iff (by decide) hpos).mpr h
  rw [toList_zeroPadded, List.length_append, List.length_replicate]
  omega

theorem isDigit_zeroPadded {width n : ℕ} {c : Char} (h : c ∈ (zeroPadded width n).toList) :
    c.isDigit = true :=
  isDigit_of_mem_padded (toList_zeroPadded width n ▸ h)

theorem ofDigitChars_zeroPadded (width n : ℕ) :
    Nat.ofDigitChars 10 (zeroPadded width n).toList 0 = n := by
  rw [toList_zeroPadded, ofDigitChars_padded]

/-- One more digit. -/
theorem toList_zeroPadded_succ {width n : ℕ} (hpos : 0 < width) :
    (zeroPadded (width + 1) n).toList =
      (zeroPadded width (n / 10)).toList ++ [Nat.digitChar (n % 10)] := by
  rw [toList_zeroPadded, toList_zeroPadded]
  rcases Nat.lt_or_ge n 10 with hlt | hge
  · rw [Nat.toDigits_of_lt_base hlt, Nat.div_eq_of_lt hlt, Nat.toDigits_zero, Nat.mod_eq_of_lt hlt]
    obtain ⟨width, rfl⟩ := Nat.exists_eq_add_of_le' hpos
    simp [List.replicate_succ']
  · rw [Nat.toDigits_of_base_le (by decide) hge, List.length_append, List.length_singleton,
      Nat.add_sub_add_right, List.append_assoc]

theorem zeroPadded_one {n : ℕ} (h : n < 10) : (zeroPadded 1 n).toList = [Nat.digitChar n] := by
  rw [toList_zeroPadded, Nat.toDigits_of_lt_base h]
  rfl

/-- Texts of one length that differ at the front are in the order of the front. -/
theorem append_lt_append {l l' : List Char} (hlength : l.length = l'.length) (h : l < l')
    (r r' : List Char) : l ++ r < l' ++ r' := by
  induction l generalizing l' with
  | nil =>
    obtain rfl : l' = [] := List.length_eq_zero_iff.mp hlength.symm
    exact absurd h (List.lt_irrefl [])
  | cons c l ih =>
    obtain ⟨c', l', rfl⟩ := List.exists_cons_of_length_eq_add_one hlength.symm
    rw [List.cons_append, List.cons_append, List.cons_lt_cons_iff]
    rcases List.cons_lt_cons_iff.mp h with hc | ⟨rfl, hl⟩
    · exact Or.inl hc
    · exact Or.inr ⟨rfl, ih (by simpa using hlength) hl⟩

/-- Padded to one width, smaller numbers come first. -/
theorem zeroPadded_lt {width n m : ℕ} (hpos : 0 < width) (h : n < m) (hm : m < 10 ^ width) :
    (zeroPadded width n).toList < (zeroPadded width m).toList := by
  induction width, hpos using Nat.le_induction generalizing n m with
  | base =>
    have hall : ∀ m < 10, ∀ n < m, [Nat.digitChar n] < [Nat.digitChar m] := by decide
    rw [zeroPadded_one (h.trans hm), zeroPadded_one hm]
    exact hall m hm n h
  | succ width hpos ih =>
    have hdiv : m / 10 < 10 ^ width := by rw [pow_succ] at hm; omega
    rw [toList_zeroPadded_succ hpos, toList_zeroPadded_succ hpos]
    rcases Nat.lt_or_ge (n / 10) (m / 10) with hlt | hge
    · have hlength : (zeroPadded width (n / 10)).toList.length =
          (zeroPadded width (m / 10)).toList.length := by
        rw [length_zeroPadded hpos hdiv, length_zeroPadded hpos (hlt.trans hdiv)]
      exact append_lt_append hlength (ih hlt hdiv) _ _
    · have hlast : n % 10 < m % 10 := by omega
      have hall : ∀ m < 10, ∀ n < m, [Nat.digitChar n] < [Nat.digitChar m] := by decide
      rw [show n / 10 = m / 10 by omega]
      exact List.append_left_lt (hall _ (Nat.mod_lt m (by decide)) _ hlast)

end zeros

/-! ## What `int()` refuses -/

section refuses
variable {base : ℕ} {c : Char} {cs : List Char} {n : ℕ} {k : ℤ}

/-- All characters of digits that may be grouped are digits or underscores. -/
theorem groupedDigits_mem {ds : List ℕ} (h : groupedDigits base cs = some ds) :
    ∀ c ∈ cs, c = '_' ∨ (digitOf base c).isSome := by
  fun_induction groupedDigits base cs generalizing ds with
  | case1 => cases h
  | case2 c =>
    obtain ⟨d, hd, -⟩ := Option.map_eq_some_iff.mp h
    simp [hd]
  | case3 c cs ih =>
    obtain ⟨d, hd, h⟩ := Option.bind_eq_some_iff.mp h
    obtain ⟨ds', hds, -⟩ := Option.bind_eq_some_iff.mp h
    have hrest := ih hds
    grind
  | case4 c c' cs hne ih =>
    obtain ⟨d, hd, h⟩ := Option.bind_eq_some_iff.mp h
    obtain ⟨ds', hds, -⟩ := Option.bind_eq_some_iff.mp h
    have hrest := ih hds
    grind

/-- What may stand in a number. -/
def isNumeral (base : ℕ) (c : Char) : Bool :=
  c = '_' ∨ c = 'x' ∨ c = 'X' ∨ (digitOf base c).isSome

theorem isNumeral_of_unsignedText (h : unsignedText base cs = some n) :
    ∀ c ∈ cs, isNumeral base c = true := by
  rw [unsignedText] at h
  split at h
  · rename_i ds hgrouped
    intro c hc
    have hmem := groupedDigits_mem hgrouped c
    simp only [isNumeral, decide_eq_true_eq]
    split at hmem
    · rename_i hbase
      have hzero : (digitOf base '0').isSome = true := by
        rw [hbase]
        decide
      unfold dropHexPrefix at hmem
      split at hmem <;> grind
    · grind
  · cases h

/-- White space, as `int()` is given it, stands in no number. -/
theorem not_isNumeral_pyAscii (h : pyIsSpace c = true) :
    isNumeral base (pyAscii c) = false ∧ pyAscii c ≠ '-' ∧ pyAscii c ≠ '+' := by
  have hlow : ∀ c : Char, c.toNat ≤ 0x20 → isNumeral base c = false ∧ c ≠ '-' ∧ c ≠ '+' := by
    intro c hc
    have hdigit : digitOf base c = none := by
      have hzero : ¬ '0' ≤ c := fun h => by
        have : '0'.toNat ≤ c.toNat := h
        simp at this
        omega
      have ha : ¬ 'a' ≤ c := fun h => by
        have : 'a'.toNat ≤ c.toNat := h
        simp at this
        omega
      have hA : ¬ 'A' ≤ c := fun h => by
        have : 'A'.toNat ≤ c.toNat := h
        simp at this
        omega
      simp [digitOf, hzero, ha, hA]
    have hne : ∀ c', 0x20 < c'.toNat → c ≠ c' := by
      rintro c' hc' rfl
      omega
    refine ⟨?_, hne '-' (by decide), hne '+' (by decide)⟩
    simp [isNumeral, hdigit, hne '_' (by decide), hne 'x' (by decide), hne 'X' (by decide)]
  apply hlow
  simp only [pyIsSpace, Bool.or_eq_true, Bool.and_eq_true, decide_eq_true_eq, beq_iff_eq] at h
  rw [pyAscii, pyIsSpace]
  split
  · omega
  · rw [if_pos (by simpa using h)]
    decide

/-- If `int()` reads digits with white space around them, it reads the digits. -/
theorem readInt_padded {ds : List ℕ} {before after : List Char} (hbase : base = 10 ∨ base = 16)
    (hne : ds ≠ []) (hds : ∀ d ∈ ds, d < base) (hbefore : Blank before) (hafter : Blank after)
    (h : readInt base (before.map pyAscii ++ ds.map Nat.digitChar ++ after.map pyAscii) = some k) :
    k = ofDigitList base ds := by
  have hspace : ∀ {l : List Char}, Blank l → ∀ c ∈ l.map pyAscii,
      isNumeral base c = false ∧ c ≠ '-' ∧ c ≠ '+' := by
    intro l hl c hc
    obtain ⟨c', hc', rfl⟩ := List.mem_map.mp hc
    exact not_isNumeral_pyAscii (hl c' hc')
  have hdigit := digitChars_plain hbase hds
  have hcore := trimmed_append (before.map pyAscii) (after.map pyAscii)
    (by simpa using hne) fun c hc => (hdigit c hc).1
  -- What is left of the white space would have to be read.
  have hsign : ∀ c, ((before.map pyAscii).dropWhile isIntSpace ++ ds.map Nat.digitChar ++
      ((after.map pyAscii).reverse.dropWhile isIntSpace).reverse).head? = some c →
      c ≠ '-' ∧ c ≠ '+' := by
    intro c hc
    rcases List.mem_append.mp (List.mem_of_mem_head? hc) with hmem | hmem
    · rcases List.mem_append.mp hmem with hmem | hmem
      · exact (hspace hbefore c (List.dropWhile_subset _ hmem)).2
      · exact (hdigit c hmem).2
    · have hmem := List.dropWhile_subset _ (List.mem_reverse.mp hmem)
      exact (hspace hafter c (List.mem_reverse.mp hmem)).2
  rw [readInt_of_unsigned hcore (fun h => (hsign _ h).1 rfl) (fun h => (hsign _ h).2 rfl)] at h
  obtain ⟨m, hread, rfl⟩ := Option.map_eq_some_iff.mp h
  have hnumeral := isNumeral_of_unsignedText hread
  have hnil : ∀ l : List Char, (∀ c ∈ l, isNumeral base c = true) →
      (∀ c ∈ l, isNumeral base c = false) → l = [] := by
    intro l htrue hfalse
    refine List.eq_nil_iff_forall_not_mem.mpr fun c hc => ?_
    have hboth := htrue c hc
    rw [hfalse c hc] at hboth
    cases hboth
  have hfront : (before.map pyAscii).dropWhile isIntSpace = [] :=
    hnil _ (fun c hc => hnumeral c (List.mem_append_left _ (List.mem_append_left _ hc)))
      fun c hc => (hspace hbefore c (List.dropWhile_subset _ hc)).1
  have hback : ((after.map pyAscii).reverse.dropWhile isIntSpace).reverse = [] :=
    hnil _ (fun c hc => hnumeral c (List.mem_append_right _ hc)) fun c hc => (hspace hafter c
      (List.mem_reverse.mp (List.dropWhile_subset _ (List.mem_reverse.mp hc)))).1
  rw [hfront, hback, List.nil_append, List.append_nil,
    unsignedText_digitChar hbase hne hds] at hread
  split at hread
  · simpa using hread.symm
  · cases hread

/-- What `int()` reads are white space, signs and what stands in numbers. -/
theorem isNumeral_of_readInt (h : readInt base cs = some k) :
    ∀ c ∈ cs, isIntSpace c = true ∨ c = '-' ∨ c = '+' ∨ isNumeral base c = true := by
  intro c hc
  by_cases hspace : isIntSpace c = true
  · exact Or.inl hspace
  have hkept : ∀ l : List Char, c ∈ l → c ∈ l.dropWhile isIntSpace := by
    intro l hl
    rw [← List.takeWhile_append_dropWhile (p := isIntSpace) (l := l), List.mem_append] at hl
    exact hl.resolve_left fun htake => hspace (List.mem_takeWhile_imp htake)
  have hcore : c ∈ ((cs.dropWhile isIntSpace).reverse.dropWhile isIntSpace).reverse :=
    List.mem_reverse.mpr (hkept _ (List.mem_reverse.mpr (hkept _ hc)))
  rw [readInt] at h
  split at h
  · rename_i ds heq
    rw [heq, List.mem_cons] at hcore
    obtain ⟨n, hread, -⟩ := Option.map_eq_some_iff.mp h
    exact Or.inr (hcore.imp_right fun hc => Or.inr (isNumeral_of_unsignedText hread c hc))
  · rename_i ds heq
    rw [heq, List.mem_cons] at hcore
    obtain ⟨n, hread, -⟩ := Option.map_eq_some_iff.mp h
    exact Or.inr (Or.inr (hcore.imp_right fun hc => isNumeral_of_unsignedText hread c hc))
  · obtain ⟨n, hread, -⟩ := Option.map_eq_some_iff.mp h
    exact Or.inr (Or.inr (Or.inr (isNumeral_of_unsignedText hread c hcore)))

/-- A digit that is not decimal is not read. -/
theorem pyIntText_of_digit {text : String} (hbase : base = 10 ∨ base = 16)
    (hdigit : pyIsDigit text = true) (h : pyIsDecimal text = false) :
    pyIntText base text = none := by
  obtain ⟨hne, hall⟩ := of_decide_eq_true hdigit
  obtain ⟨c, hc, hnot⟩ : ∃ c ∈ text.toList, pyDecimal c = none := by
    by_contra hno
    rw [pyIsDecimal, decide_eq_false_iff_not, not_and] at h
    refine h hne (List.all_eq_true.mpr fun c hc => ?_)
    by_contra hc'
    exact hno ⟨c, hc, Option.not_isSome_iff_eq_none.mp hc'⟩
  have hother := List.all_eq_true.mp hall c hc
  rw [hnot, Option.isSome_none, Bool.false_or, List.any_eq_true] at hother
  obtain ⟨r, hr, hrange⟩ := hother
  rw [decide_eq_true_eq] at hrange
  have hapart : ∀ r ∈ otherDigits, 0xa0 < r.1 ∧ (r.2 < 0x1680 ∨ 0x1680 < r.1 ∧ r.2 < 0x2000 ∨
      0x205f < r.1 ∧ r.2 < 0x3000 ∨ 0x3000 < r.1) := by decide
  have hr' := hapart r hr
  have hspace : pyIsSpace c = false := by
    simp only [pyIsSpace, Bool.or_eq_false_iff, Bool.and_eq_false_iff, decide_eq_false_iff_not,
      beq_eq_false_iff_ne]
    omega
  have hascii : pyAscii c = '?' := by
    rw [pyAscii, if_neg (by omega), if_neg (by simp [hspace]), hnot]
  have hquestion : ¬ (isIntSpace '?' = true ∨ '?' = '-' ∨ '?' = '+' ∨
      isNumeral base '?' = true) := by
    rcases hbase with rfl | rfl <;> decide
  cases hread : pyIntText base text with
  | none => rfl
  | some k => exact absurd (isNumeral_of_readInt hread '?'
      (List.mem_map.mpr ⟨c, hc, hascii⟩)) hquestion

end refuses

example : pyIntText 10 " +1_0\u3000" = some 10 := by decide
example : pyIntText 16 "0x_1F" = some 31 := by decide
example : pyIntText 10 "²" = none := by decide

end BaseWebService.Library
