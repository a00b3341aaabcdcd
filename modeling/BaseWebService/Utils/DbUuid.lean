import BaseWebService.Utils.Uuid

/-!
# Ids in the database

`core/utils/uuid_utils.py` turns what a request gives as an id into a `UUID`: a `UUID` as it is, a
number by putting its twelve decimal digits into the last group of a `UUID`, and a text either as
a number or as one of the texts that `UUID()` takes.
-/

namespace BaseWebService.Utils

open Library

/-- What `isinstance(value, int)` is true of. -/
inductive IntValue where
  | bool (b : Bool)
  | int (n : ℤ)

inductive IdValue where
  | uuid (u : Uuid)
  | int (value : IntValue)
  | str (text : String)
  | other

def outOfRange : PyError :=
  ⟨.valueError, some "Integer id is out of range for UUID conversion"⟩

def newUuid (text : String) : Except PyError Uuid :=
  match Uuid.ofText text with
  | some u => .ok u
  | none => .error ⟨.valueError, none⟩

def getUuidFromInt : IntValue → Except PyError Uuid
  | .bool _ => .error outOfRange
  | .int n =>
    if n < 0 ∨ 10 ^ 12 ≤ n then .error outOfRange
    else newUuid ("00000000-0000-0000-0000-" ++ zeroPadded 12 n.toNat)

def parseDbUuid : IdValue → Except PyError Uuid
  | .uuid u => .ok u
  | .int (.int n) => getUuidFromInt (.int n)
  | .str text =>
    let value := pyStrip text
    if pyIsDecimal value then
      match pyIntText 10 value with
      | some n => getUuidFromInt (.int n)
      | none => .error ⟨.valueError, none⟩
    else newUuid value
  | _ => .error ⟨.typeError, some "Expected UUID, UUID string, or integer id"⟩

/-! ## Numbers as ids -/

section number
variable {n : ℕ} {text : String}

/-- A number below `10 ^ 12` becomes the `UUID` with its digits. -/
theorem getUuidFromInt_of_lt (h : n < 10 ^ 12) :
    ∃ u, getUuidFromInt (.int n) = .ok u ∧ u.int = rebase n := by
  have hpad := toList_zeroPadded 12 n
  have htext : ("00000000-0000-0000-0000-" ++ zeroPadded 12 n).toList =
      "00000000-0000-0000-0000-".toList ++ (zeroPadded 12 n).toList := by simp
  have hdecimal := (decimals_of_toDigits hpad).1
  have hdigits : ∀ c ∈ (zeroPadded 12 n).toList, (pyDecimal c).isSome :=
    List.all_eq_true.mp (of_decide_eq_true hdecimal).2
  have hfilter : ("00000000-0000-0000-0000-" ++ zeroPadded 12 n).toList.filter (· ≠ '-') =
      List.replicate 20 '0' ++ (zeroPadded 12 n).toList := by
    have hzeros : "00000000-0000-0000-0000-".toList.filter (· ≠ '-') = List.replicate 20 '0' := by
      decide
    have hself : ∀ c ∈ (zeroPadded 12 n).toList, c ≠ '-' := by
      rintro _ hc rfl
      exact absurd (hdigits _ hc) (by decide)
    rw [htext, List.filter_append, hzeros,
      List.filter_eq_self.mpr fun c hc => decide_eq_true (hself c hc)]
  have hplain : ∀ c ∈ ("00000000-0000-0000-0000-" ++ zeroPadded 12 n).toList,
      c = '-' ∨ (pyDecimal c).isSome := by
    intro c hc
    rw [htext, List.mem_append] at hc
    rcases hc with hc | hc
    · have hall : ∀ c ∈ "00000000-0000-0000-0000-".toList, c = '-' ∨ (pyDecimal c).isSome := by
        decide
      exact hall c hc
    · exact Or.inr (hdigits c hc)
  obtain ⟨u, hu, hint⟩ := ofText_of_decimal _ hplain (by
    rw [hfilter, List.length_append, List.length_replicate, length_zeroPadded (by decide) h])
  refine ⟨u, ?_, ?_⟩
  · rw [getUuidFromInt, if_neg (by omega), Int.toNat_natCast, newUuid, hu]
  · rw [hint, hfilter, hpad, ← List.append_assoc, List.replicate_append_replicate,
      (decimals_of_toDigits String.toList_ofList).2]

theorem getUuidFromInt_of_le (h : 10 ^ 12 ≤ n) : getUuidFromInt (.int n) = .error outOfRange := by
  rw [getUuidFromInt, if_pos (Or.inr (by omega))]

/-- A text of decimal digits, once it is stripped. -/
theorem parseDbUuid_of_decimal (h : pyIsDecimal (pyStrip text) = true) :
    parseDbUuid (.str text) = if (pyStrip text).length ≤ maxStrDigits then
      getUuidFromInt (.int (ofDigitList 10 (decimals (pyStrip text))))
    else .error ⟨.valueError, none⟩ := by
  have hread := pyIntText_of_decimal (Or.inl rfl) h
  by_cases hlength : (pyStrip text).length ≤ maxStrDigits
  · rw [if_pos (Or.inr hlength)] at hread
    rw [if_pos hlength]
    simp only [parseDbUuid, h, if_true, hread]
  · rw [if_neg (by simpa using hlength)] at hread
    rw [if_neg hlength]
    simp only [parseDbUuid, h, if_true, hread]

end number

/-! ## Forms of a `UUID` as ids -/

section forms
variable {u : Uuid} {form : String} {before after : String}

theorem parseDbUuid_of_not_decimal {text : String} (h : pyIsDecimal (pyStrip text) = false) :
    parseDbUuid (.str text) = newUuid (pyStrip text) := by
  simp only [parseDbUuid, h, Bool.false_eq_true, if_false]

theorem newUuid_eq_ok_iff {text : String} : newUuid text = .ok u ↔ Uuid.ofText text = some u := by
  rw [newUuid]
  split <;> simp_all

/-- A form of a `UUID`, with white space around it, is parsed to the `UUID` exactly if it is no
number, or one that the source allows, and has no white space of its own that was counted in. -/
theorem parseDbUuid_form_iff (hform : Uuid.ofText form = some u) (hbefore : Blank before.toList)
    (hafter : Blank after.toList) : parseDbUuid (.str (before ++ form ++ after)) = .ok u ↔
      if pyIsDecimal (pyStrip form) then ofDigitList 10 (decimals (pyStrip form)) < 10 ^ 12
      else pyStrip form = form := by
  have hstrip : pyStrip (before ++ form ++ after) = pyStrip form :=
    pyStrip_of_toList hbefore hafter (by simp)
  cases hdecimal : pyIsDecimal (pyStrip form) with
  | false =>
    rw [parseDbUuid_of_not_decimal (by rw [hstrip, hdecimal]), hstrip, newUuid_eq_ok_iff]
    simp only [Bool.false_eq_true, if_false]
    refine ⟨pyStrip_eq_of_ofText hform, fun h => ?_⟩
    rw [h, hform]
  | true =>
    obtain ⟨hint, hlength⟩ := int_of_decimal hform hdecimal
    have hlimit : (pyStrip form).length ≤ maxStrDigits := hlength.trans (by decide)
    rw [parseDbUuid_of_decimal (by rw [hstrip, hdecimal]), hstrip, if_pos hlimit]
    simp only [if_true]
    constructor
    · intro hparse
      by_contra hlarge
      rw [getUuidFromInt_of_le (Nat.le_of_not_lt hlarge)] at hparse
      cases hparse
    · intro hsmall
      obtain ⟨v, hv, hv'⟩ := getUuidFromInt_of_lt hsmall
      rw [hv, Uuid.ext (hv'.trans hint.symm)]

/-- A canonical text in braces. -/
theorem parseDbUuid_form_iff_braces :
    parseDbUuid (.str (" " ++ "{12345678-1234-5678-1234-567812345678}" ++ "\n")) =
      .ok ⟨0x12345678123456781234567812345678, by decide⟩ :=
  (parseDbUuid_form_iff (by decide +kernel) (by unfold Blank; decide) (by unfold Blank; decide)).mpr
    (by decide)

/-- Thirty-two decimal digits that are a form of a `UUID` and are taken for a number. -/
theorem digits_refused : ∃ u, Uuid.ofText "12345678123456781234567812345678" = some u ∧
    parseDbUuid (.str "12345678123456781234567812345678") ≠ .ok u := by
  refine ⟨⟨0x12345678123456781234567812345678, by decide⟩, by decide +kernel, by decide +kernel⟩

end forms


/-! ## Numbers and their texts -/

section texts
variable {u : Uuid} {n zeros : ℕ} {text : String}

/-- The text of a `UUID` is no number, whatever the digits are. -/
theorem parseDbUuid_text (u : Uuid) : parseDbUuid (.str u.text) = .ok u := by
  have hminus : '-' ∈ u.text.toList := by simp [Uuid.text]
  have hplain : ∀ c ∈ u.text.toList, pyIsSpace c = false := by
    have hall : ∀ d < 16, pyIsSpace (Nat.digitChar d) = false := by decide
    intro c hc
    obtain rfl | ⟨d, hd, rfl⟩ := Uuid.mem_text hc
    · decide
    · exact hall d hd
  have hdecimal : pyIsDecimal (pyStrip u.text) = false := by
    rw [pyStrip_eq_self hplain, Bool.eq_false_iff]
    intro h
    have hsome := pyDecimal_of_pyIsDecimal h '-' hminus
    revert hsome
    decide
  rw [parseDbUuid_of_not_decimal hdecimal, pyStrip_eq_self hplain, newUuid_eq_ok_iff,
    Uuid.ofText_text]

/-- Numbers that are not the same do not become the same `UUID`. -/
theorem getUuidFromInt_injective {m : ℕ} (hn : n < 10 ^ 12) (hm : m < 10 ^ 12)
    (h : getUuidFromInt (.int n) = getUuidFromInt (.int m)) : n = m := by
  obtain ⟨u, hu, hint⟩ := getUuidFromInt_of_lt hn
  obtain ⟨v, hv, hint'⟩ := getUuidFromInt_of_lt hm
  rw [hu, hv, Except.ok.injEq] at h
  have hrebase : rebase n = rebase m := by rw [← hint, ← hint', h]
  exact ofDigits_digits_injective (by decide) hrebase

/-- The text of a number, with zeros in front. -/
def zerosThen (zeros n : ℕ) : String := String.ofList (List.replicate zeros '0') ++ pyStr n

theorem toList_zerosThen :
    (zerosThen zeros n).toList = List.replicate zeros '0' ++ Nat.toDigits 10 n := by
  have htext : (pyStr n).toList = Nat.toDigits 10 n := Nat.toList_repr
  rw [zerosThen, String.toList_append, String.toList_ofList, htext]

theorem pyStrip_zerosThen : pyStrip (zerosThen zeros n) = zerosThen zeros n := by
  have hdecimal : pyIsDecimal (zerosThen zeros n) = true :=
    (decimals_of_toDigits toList_zerosThen).1
  exact pyStrip_eq_self fun c hc => pyIsSpace_of_pyDecimal (pyDecimal_of_pyIsDecimal hdecimal c hc)

theorem parseDbUuid_of_zerosThen (h : pyStrip text = zerosThen zeros n) :
    parseDbUuid (.str text) = if (pyStrip text).length ≤ maxStrDigits then
      getUuidFromInt (.int n) else .error ⟨.valueError, none⟩ := by
  obtain ⟨hdecimal, hvalue⟩ := decimals_of_toDigits
    (show (pyStrip text).toList = _ from h ▸ toList_zerosThen)
  rw [parseDbUuid_of_decimal hdecimal, hvalue]

def RaisesValueError (result : Except PyError Uuid) : Prop :=
  ∃ message, result = .error ⟨.valueError, message⟩

/-- Numbers are embedded: a number and its text are parsed to the same `UUID`, if the text is not
too long for `int()`, or are both refused; different numbers become different, and the text of what
they become is parsed to the same again. -/
theorem integer_ids_embed :
    (∀ (n zeros : ℕ) (text : String), pyStrip text = zerosThen zeros n →
      (n < 10 ^ 12 → ∃ u, parseDbUuid (.int (.int n)) = .ok u ∧
        (parseDbUuid (.str text) = .ok u ↔ (pyStrip text).length ≤ maxStrDigits)) ∧
      (10 ^ 12 ≤ n → RaisesValueError (parseDbUuid (.int (.int n))) ∧
        RaisesValueError (parseDbUuid (.str text)))) ∧
    (∀ n m : ℕ, n < 10 ^ 12 → m < 10 ^ 12 →
      getUuidFromInt (.int n) = getUuidFromInt (.int m) → n = m) ∧
    ∀ (n : ℕ) (u : Uuid), getUuidFromInt (.int n) = .ok u → parseDbUuid (.str u.text) = .ok u := by
  refine ⟨fun n zeros text h => ⟨fun hn => ?_, fun hn => ?_⟩,
    fun n m hn hm => getUuidFromInt_injective hn hm, fun n u _ => parseDbUuid_text u⟩
  · obtain ⟨u, hu, -⟩ := getUuidFromInt_of_lt hn
    refine ⟨u, hu, ?_⟩
    rw [parseDbUuid_of_zerosThen h]
    split
    · exact iff_of_true hu ‹_›
    · exact iff_of_false (by rintro ⟨⟩) ‹_›
  · have hrefused := getUuidFromInt_of_le hn
    refine ⟨⟨_, hrefused⟩, ?_⟩
    rw [parseDbUuid_of_zerosThen h]
    split
    · exact ⟨_, hrefused⟩
    · exact ⟨_, rfl⟩

theorem integer_ids_embed_seven : ∃ u, parseDbUuid (.int (.int 7)) = .ok u ∧
    parseDbUuid (.str " 007\n") = .ok u := by
  obtain ⟨u, hu, htext⟩ := (integer_ids_embed.1 7 2 " 007\n" (by decide +kernel)).1 (by decide)
  exact ⟨u, hu, htext.mpr (by decide +kernel)⟩

/-- With more zeros than `int()` reads, a number and its text are not parsed to the same. -/
theorem zeros_refused : ∃ u, parseDbUuid (.int (.int 5)) = .ok u ∧
    parseDbUuid (.str (zerosThen 4300 5)) ≠ .ok u := by
  obtain ⟨u, hu, -⟩ := getUuidFromInt_of_lt (show 5 < 10 ^ 12 by decide)
  have hlength : ¬ (pyStrip (zerosThen 4300 5)).length ≤ maxStrDigits := by
    have hone : (Nat.toDigits 10 5).length = 1 := by decide
    rw [pyStrip_zerosThen, ← String.length_toList, toList_zerosThen, List.length_append,
      List.length_replicate, hone]
    decide
  refine ⟨u, hu, ?_⟩
  rw [parseDbUuid_of_zerosThen pyStrip_zerosThen, if_neg hlength]
  rintro ⟨⟩

end texts

end BaseWebService.Utils
