import BaseWebService.Library.PyDatetime
import BaseWebService.Library.PyReplace

/-!
# Timestamps in models

`DatetimeHelper` in `app/db_models/models/common.py` turns a timestamp into text and what it is
given as a time into a timestamp.
-/

namespace BaseWebService.Models

open Library

/-- `DatetimeHelper.convert_strftime_sgn`; a number that `time_t` has no room for raises. -/
def convertStrftimeSgn : Option ℤ → Except PyError String
  | none => .ok ""
  | some timestamp =>
    if timestamp = 0 then .ok ""
    else if timestamp < -2 ^ 63 ∨ 2 ^ 63 ≤ timestamp then .error ⟨.overflowError, none⟩
    else match DateTime.fromTimestamp timestamp with
      | some dt => .ok dt.strftime
      | none => .ok ""

/-- What is given as a time. -/
inductive DateVal where
  | none
  | int (n : ℤ)
  | float (x : PyFloat)
  | str (text : String)

/-- A number of eleven digits or more is in milliseconds. -/
def inSeconds (ts : ℤ) : ℤ := if 9999999999 < ts then ts / 1000 else ts

/-- The formats that are tried one after the other. -/
def formats : List (List FormatItem) :=
  let time := [.space, .hour, .literal ':', .minute, .literal ':', .second]
  let dashes := [.year, .literal '-', .month, .literal '-', .day]
  let slashes := [.year, .literal '/', .month, .literal '/', .day]
  [dashes ++ time, dashes, slashes ++ time, slashes]

/-- `DatetimeHelper.parse_to_timestamp`. -/
def parseToTimestamp : DateVal → Except PyError (Option ℤ)
  | .none => .ok none
  | .int n => .ok (some (inSeconds n))
  | .float x => x.toInt.map fun n => some (inSeconds n)
  | .str text =>
    let dateStr := pyStrip text
    if dateStr = "" then .ok none
    else if pyIsDigit dateStr then
      match pyIntText 10 dateStr with
      | some ts => .ok (some (inSeconds ts))
      | none => .error ⟨.valueError, none⟩
    else match fromIsoFormat (pyReplaceAll "Z" "+00:00" dateStr) with
      | some dt => .ok (some (if dt.offset = none then dt.inUtc else dt).timestamp)
      | none =>
        .ok ((formats.findSome? fun format => strptime format dateStr).map fun dt =>
          dt.inUtc.timestamp)

/-! ## Timestamps to text and back -/

/-- The UTC date of a timestamp is in the years from 1000 to 9999. -/
def InYears (ts : ℤ) : Prop :=
  ∃ dt, DateTime.fromTimestamp ts = some dt ∧ 1000 ≤ dt.date.year ∧ dt.date.year ≤ 9999

section texts
variable {ts : ℤ} {dt : DateTime} {text : String}

/-- Text that is not empty is the text of the time. -/
theorem eq_strftime_of_convert (hdt : DateTime.fromTimestamp ts = some dt)
    (h : convertStrftimeSgn (some ts) = .ok text) (hne : text ≠ "") : text = dt.strftime := by
  rw [convertStrftimeSgn] at h
  split at h
  · exact absurd (Except.ok.inj h).symm hne
  · split at h
    · cases h
    · rw [hdt] at h
      exact (Except.ok.inj h).symm

/-- The text of a time has no white space at its ends, is no number and has no `Z`. -/
theorem strftime_plain (h : 1000 ≤ dt.date.year) : pyStrip dt.strftime = dt.strftime ∧
    dt.strftime ≠ "" ∧ pyIsDigit dt.strftime = false ∧
    pyReplaceAll "Z" "+00:00" dt.strftime = dt.strftime := by
  have htext := DateTime.toList_strftime h
  have hmem : ∀ c ∈ dt.strftime.toList, c.isDigit = true ∨ c = '-' ∨ c = ' ' ∨ c = ':' := by
    intro c hc
    rw [htext, List.mem_append, List.mem_cons] at hc
    rcases hc with hc | rfl | hc
    · rcases DateTime.mem_dateChars hc with hdigit | rfl <;> simp [*]
    · simp
    · rcases DateTime.mem_clockChars hc with hdigit | rfl <;> simp [*]
  have hplain : ∀ c, c.isDigit = true ∨ c = ':' → pyIsSpace c = false := by
    rintro c (hdigit | rfl)
    · exact pyIsSpace_of_isDigit hdigit
    · decide
  have hminus : '-' ∈ dt.strftime.toList := by
    rw [htext]
    simp [DateTime.dateChars]
  have hhead : ∀ c, dt.strftime.toList.head? = some c → pyIsSpace c = false := by
    obtain ⟨c, cs, hyear, hdigit⟩ := head_zeroPadded 4 dt.date.year
    intro c' hc'
    rw [htext, DateTime.dateChars, hyear] at hc'
    obtain rfl : c = c' := Option.some.inj hc'
    exact pyIsSpace_of_isDigit hdigit
  have hlast : ∀ c, dt.strftime.toList.getLast? = some c → pyIsSpace c = false := by
    have hsplit : dt.strftime.toList = (DateTime.dateChars dt.date ++ [' ']) ++ dt.clockChars := by
      rw [htext, List.append_assoc, List.singleton_append]
    have hclock : dt.clockChars ≠ [] := by simp [DateTime.clockChars]
    intro c hc
    rw [hsplit, List.getLast?_append, List.getLast?_eq_some_getLast hclock, Option.some_or] at hc
    rw [← Option.some.inj hc]
    exact hplain _ (DateTime.mem_clockChars (List.getLast_mem hclock))
  refine ⟨pyStrip_of_ends hhead hlast, ?_, ?_, ?_⟩
  · intro hempty
    simp [hempty] at hminus
  · refine decide_eq_false fun h => ?_
    have hall := List.all_eq_true.mp h.2 '-' hminus
    revert hall
    decide
  · have hz : ∀ c ∈ dt.strftime.toList, id c ≠ 'Z' := by
      rintro c hc rfl
      have h := hmem _ hc
      revert h
      decide
    rw [pyReplaceAll, replaceFrom_eq_self (show 'Z' ∈ "Z".toList by decide) hz,
      String.ofList_toList]

theorem parseToTimestamp_strftime (hdt : DateTime.fromTimestamp ts = some dt)
    (h : 1000 ≤ dt.date.year) : parseToTimestamp (.str dt.strftime) = .ok (some ts) := by
  obtain ⟨hstrip, hne, hdigit, hreplace⟩ := strftime_plain h
  obtain ⟨-, -, hmicro, hoffset⟩ := DateTime.fromTimestamp_spec hdt
  have hsame : ({ dt with offset := none } : DateTime).inUtc = dt := by
    cases dt
    simp_all [DateTime.inUtc]
  simp only [parseToTimestamp, hstrip, hne, hdigit, hreplace, if_false, Bool.false_eq_true,
    DateTime.fromIsoFormat_strftime h hmicro, if_true, hsame,
    DateTime.timestamp_of_micros (DateTime.micros_fromTimestamp hdt)]

/-- These are the timestamps from the first second of the year 1000 to the last of 9999. -/
theorem inYears_iff : InYears ts ↔ -30610224000 ≤ ts ∧ ts ≤ 253402300799 := by
  have hfirst : daysBeforeYear 1000 = 364877 := by decide
  have hlast : daysBeforeYear 10000 = 3652059 := by decide
  constructor
  · rintro ⟨dt, hdt, hlow, hhigh⟩
    obtain ⟨hday, -⟩ := DateTime.fromTimestamp_spec hdt
    have hge := (daysBeforeYear_mono hlow).trans_lt dt.date.daysBeforeYear_lt_ordinal
    have hle := dt.date.ordinal_le.trans (daysBeforeYear_mono (Nat.succ_le_succ hhigh))
    simp only [DateTime.epoch, hfirst, hlast] at hday hge hle
    omega
  · rintro ⟨hlow, hhigh⟩
    obtain ⟨d, hd, hordinal⟩ :=
      Date.ofOrdinal_eq (show 1 ≤ (DateTime.epoch + ts / 86400 : ℤ).toNat by
        simp only [DateTime.epoch]
        omega)
    have hday : (d.ordinal : ℤ) = 719163 + ts / 86400 := by
      simp only [DateTime.epoch] at hordinal
      omega
    have hge : 1000 ≤ d.year := by
      by_contra hlt
      have hle := d.ordinal_le.trans (daysBeforeYear_mono (show d.year + 1 ≤ 1000 by omega))
      omega
    have hle : d.year ≤ 9999 := by
      by_contra hlt
      have hlt' := (daysBeforeYear_mono (show 10000 ≤ d.year by omega)).trans_lt
        d.daysBeforeYear_lt_ordinal
      omega
    refine ⟨⟨d, (ts % 86400).toNat / 3600, (ts % 86400).toNat / 60 % 60, (ts % 86400).toNat % 60, 0,
      some 0, hle, by omega, by omega, by omega, by decide⟩, ?_, hge, hle⟩
    rw [DateTime.fromTimestamp, if_neg (by simp only [DateTime.epoch]; omega)]
    simp only [hd, Option.bind_eq_bind, Option.bind_some]
    exact dif_pos ⟨hle, by omega, by omega, by omega, by decide⟩

/-- A timestamp is read back from its text, and the texts are in the order of the timestamps. -/
theorem timestamp_round_trip :
    (∀ (ts : ℤ) (text : String), InYears ts → convertStrftimeSgn (some ts) = .ok text →
      text ≠ "" → parseToTimestamp (.str text) = .ok (some ts)) ∧
    ∀ (ts ts' : ℤ) (text text' : String), InYears ts → InYears ts' →
      convertStrftimeSgn (some ts) = .ok text → convertStrftimeSgn (some ts') = .ok text' →
      text ≠ "" → text' ≠ "" → ts < ts' → text < text' := by
  refine ⟨?_, ?_⟩
  · rintro ts text ⟨dt, hdt, hyear, -⟩ htext hne
    rw [eq_strftime_of_convert hdt htext hne]
    exact parseToTimestamp_strftime hdt hyear
  · rintro ts ts' text text' ⟨dt, hdt, hyear, -⟩ ⟨dt', hdt', hyear', -⟩ htext htext' hne hne' hlt
    rw [eq_strftime_of_convert hdt htext hne, eq_strftime_of_convert hdt' htext' hne']
    exact DateTime.strftime_lt hdt hdt' hyear hyear' hlt

/-- The last second before and the first of a leap day. -/
theorem timestamp_round_trip_leapDay :
    parseToTimestamp (.str "2000-02-29 00:00:00") = .ok (some 951782400) ∧
      "2000-02-28 23:59:59" < "2000-02-29 00:00:00" := by
  have hyears : InYears 951782399 ∧ InYears 951782400 :=
    ⟨inYears_iff.mpr (by decide), inYears_iff.mpr (by decide)⟩
  have htexts : convertStrftimeSgn (some 951782399) = .ok "2000-02-28 23:59:59" ∧
      convertStrftimeSgn (some 951782400) = .ok "2000-02-29 00:00:00" := by decide +kernel
  exact ⟨timestamp_round_trip.1 _ _ hyears.2 htexts.2 (by decide),
    timestamp_round_trip.2 _ _ _ _ hyears.1 hyears.2 htexts.1 htexts.2 (by decide) (by decide)
      (by decide)⟩

end texts

/-! ## What raises -/

section raises
variable {x : DateVal} {text : String} {n : ℤ}

/-- What `int()` has no objection to: no float but a finite one, and no digits but decimal ones, of
which there may be 4300. -/
def DateVal.Readable : DateVal → Prop
  | .float .nan => False
  | .float (.inf _) => False
  | .str text => pyIsDigit (pyStrip text) = true →
      pyIsDecimal (pyStrip text) = true ∧ (pyStrip text).length ≤ maxStrDigits
  | _ => True

theorem pyIsDigit_of_pyIsDecimal (h : pyIsDecimal text = true) : pyIsDigit text = true := by
  obtain ⟨hne, hall⟩ := of_decide_eq_true h
  refine decide_eq_true ⟨hne, List.all_eq_true.mpr fun c hc => ?_⟩
  rw [List.all_eq_true.mp hall c hc, Bool.true_or]

theorem parseToTimestamp_of_digit (h : pyIsDigit (pyStrip text) = true) :
    parseToTimestamp (.str text) = match pyIntText 10 (pyStrip text) with
      | some ts => .ok (some (inSeconds ts))
      | none => .error ⟨.valueError, none⟩ := by
  have hne := (of_decide_eq_true h).1
  simp only [parseToTimestamp, hne, if_false, h, if_true]

/-- Decimal digits are read, if they are not too many. -/
theorem parseToTimestamp_of_decimal (h : pyIsDecimal (pyStrip text) = true) :
    parseToTimestamp (.str text) = if (pyStrip text).length ≤ maxStrDigits then
      .ok (some (inSeconds (ofDigitList 10 (decimals (pyStrip text)))))
    else .error ⟨.valueError, none⟩ := by
  rw [parseToTimestamp_of_digit (pyIsDigit_of_pyIsDecimal h), pyIntText_of_decimal (Or.inl rfl) h]
  by_cases hlength : (pyStrip text).length ≤ maxStrDigits
  · rw [if_pos (Or.inr hlength), if_pos hlength]
  · rw [if_neg (by simpa using hlength), if_neg hlength]

theorem parseToTimestamp_ok_iff : (∃ r, parseToTimestamp x = .ok r) ↔ x.Readable := by
  cases x with
  | none => exact iff_of_true ⟨_, rfl⟩ trivial
  | int n => exact iff_of_true ⟨_, rfl⟩ trivial
  | float x =>
    cases x with
    | nan => exact iff_of_false (by rintro ⟨r, ⟨⟩⟩) id
    | inf negative => exact iff_of_false (by rintro ⟨r, ⟨⟩⟩) id
    | finite mantissa exponent =>
      refine iff_of_true ?_ trivial
      rw [parseToTimestamp, PyFloat.toInt]
      split <;> exact ⟨_, rfl⟩
  | str text =>
    cases hdigit : pyIsDigit (pyStrip text) with
    | false =>
      refine iff_of_true ?_ fun h => absurd (hdigit.symm.trans h) (by decide)
      simp only [parseToTimestamp, hdigit, Bool.false_eq_true, if_false]
      split
      · exact ⟨_, rfl⟩
      · split <;> exact ⟨_, rfl⟩
    | true =>
      have hreadable : (DateVal.str text).Readable ↔ pyIsDecimal (pyStrip text) = true ∧
          (pyStrip text).length ≤ maxStrDigits := by
        simp only [DateVal.Readable, hdigit, true_imp_iff]
      rw [hreadable]
      cases hdecimal : pyIsDecimal (pyStrip text) with
      | false =>
        rw [parseToTimestamp_of_digit hdigit, pyIntText_of_digit (Or.inl rfl) hdigit hdecimal]
        exact iff_of_false (by rintro ⟨r, ⟨⟩⟩) (by simp)
      | true =>
        rw [parseToTimestamp_of_decimal hdecimal]
        split
        · exact iff_of_true ⟨_, rfl⟩ ⟨rfl, ‹_›⟩
        · exact iff_of_false (by rintro ⟨r, ⟨⟩⟩) fun h => absurd h.2 ‹_›

end raises

/-! ## Numbers and their texts -/

section numbers
variable {n : ℤ} {text : String}

/-- A text that begins with a sign is no time. -/
theorem fromIsoFormat_minus {cs : List Char} (h : text.toList = '-' :: cs) :
    fromIsoFormat text = none := by
  have hdate : ∀ i, isoDate ((text.toList).take i) = none := by
    intro i
    have hnone : takeDigits 4 (text.toList.take i) = none := by
      rw [takeDigits, h]
      cases i with
      | zero => rfl
      | succ i => simp
    rw [isoDate, hnone]
    rfl
  simp only [fromIsoFormat, hdate]
  split
  · rfl
  · cases isoSeparator text.toList <;> rfl

theorem strptime_minus {cs : List Char} (h : text.toList = '-' :: cs)
    {format : List FormatItem} (hformat : format ∈ formats) : strptime format text = none := by
  have hyear : ∀ items, formatMatches (.year :: items) ('-' :: cs) = [] := by
    intro items
    have hnone : pyDecimal '-' = none := by decide
    cases cs <;> simp [formatMatches, fieldMatches, twoDigits, hnone]
  have hfirst : ∃ items, format = .year :: items := by
    simp only [formats, List.mem_cons, List.not_mem_nil, or_false] at hformat
    rcases hformat with rfl | rfl | rfl | rfl <;> exact ⟨_, rfl⟩
  obtain ⟨items, rfl⟩ := hfirst
  rw [strptime, h, hyear]
  rfl

/-- A text that begins with a minus sign is read to nothing. -/
theorem parseToTimestamp_minus {cs : List Char} (h : text.toList = '-' :: cs)
    (hstrip : pyStrip text = text) : parseToTimestamp (.str text) = .ok none := by
  have hne : text ≠ "" := by
    rintro rfl
    cases h
  have hdigit : pyIsDigit text = false := by
    refine decide_eq_false fun hall => ?_
    have hminus := List.all_eq_true.mp hall.2 '-' (h ▸ List.mem_cons_self)
    revert hminus
    decide
  have hreplace : (pyReplaceAll "Z" "+00:00" text).toList =
      '-' :: replaceFrom id "Z".toList "+00:00".toList 0 cs := by
    have hno : ¬ "Z".toList <+: ('-' :: cs).map id := by
      rw [show "Z".toList = ['Z'] by decide, List.map_cons, List.cons_prefix_cons]
      exact fun hz => absurd hz.1 (by decide)
    rw [pyReplaceAll, String.toList_ofList, h, replaceFrom, if_neg hno]
  have hformats : (formats.findSome? fun format => strptime format text) = none :=
    List.findSome?_eq_none_iff.mpr fun format hformat => strptime_minus h hformat
  simp only [parseToTimestamp, hstrip, hne, hdigit, if_false, Bool.false_eq_true,
    fromIsoFormat_minus hreplace, hformats, Option.map_none]

/-- A number and its text are read to the same exactly if it is not negative and `int()` reads as
many digits as it has. -/
theorem parseToTimestamp_pyStr_iff (n : ℤ) :
    parseToTimestamp (.str (pyStr n)) = parseToTimestamp (.int n) ↔
      0 ≤ n ∧ (pyStr n).length ≤ maxStrDigits := by
  cases n with
  | ofNat m =>
    have htext : (pyStr (Int.ofNat m)).toList = List.replicate 0 '0' ++ Nat.toDigits 10 m :=
      toList_pyStr_ofNat m
    obtain ⟨hdecimal, hvalue⟩ := decimals_of_toDigits htext
    have hread := parseToTimestamp_of_decimal ((pyStrip_pyStr _).symm ▸ hdecimal)
    rw [hread, pyStrip_pyStr, hvalue]
    split
    · exact iff_of_true rfl ⟨Int.natCast_nonneg m, ‹_›⟩
    · exact iff_of_false (by rintro ⟨⟩) fun h => absurd h.2 ‹_›
  | negSucc m =>
    rw [parseToTimestamp_minus (toList_pyStr_negSucc m) (pyStrip_pyStr _)]
    exact iff_of_false (by rintro ⟨⟩) fun h => absurd h.1 (by omega)

/-- What is given is read to a number or to nothing exactly if `int()` has no objection to it, and a
number and its text are read to the same exactly if it is not negative and not too long. -/
theorem parse_total_and_agreeing_iff (x : DateVal) (n : ℤ) :
    ((∃ r, parseToTimestamp x = .ok r) ↔ x.Readable) ∧
      (parseToTimestamp (.str (pyStr n)) = parseToTimestamp (.int n) ↔
        0 ≤ n ∧ (pyStr n).length ≤ maxStrDigits) :=
  ⟨parseToTimestamp_ok_iff, parseToTimestamp_pyStr_iff n⟩

/-- A digit that is not decimal raises, and the text of a negative number is read to nothing. -/
theorem superscript_raises : parseToTimestamp (.str "²") = .error ⟨.valueError, none⟩ ∧
    parseToTimestamp (.str (pyStr (-5))) ≠ parseToTimestamp (.int (-5)) := by
  decide +kernel

end numbers

end BaseWebService.Models
