import BaseWebService.Library.Calendar
import BaseWebService.Library.PyNumber

/-!
# Python's `datetime`

`datetime` with the text it is formatted to and the texts that `fromisoformat` and `strptime` read,
and its seconds since 1970. `none` is a `ValueError` throughout.
-/

namespace BaseWebService.Library

/-- A `datetime`; `offset` is that of its `tzinfo`, in microseconds. -/
structure DateTime where
  date : Date
  hour : ℕ
  minute : ℕ
  second : ℕ
  microsecond : ℕ
  offset : Option ℤ
  year_le : date.year ≤ 9999
  hour_lt : hour < 24
  minute_lt : minute < 60
  second_lt : second < 60
  microsecond_lt : microsecond < 1000000

namespace DateTime

def new (date : Date) (hour minute second microsecond : ℕ) (offset : Option ℤ) : Option DateTime :=
  if h : date.year ≤ 9999 ∧ hour < 24 ∧ minute < 60 ∧ second < 60 ∧ microsecond < 1000000 then
    some ⟨date, hour, minute, second, microsecond, offset, h.1, h.2.1, h.2.2.1, h.2.2.2.1,
      h.2.2.2.2⟩
  else none

/-- `dt.replace(tzinfo=timezone.utc)`. -/
def inUtc (dt : DateTime) : DateTime := { dt with offset := some 0 }

/-! ## Seconds since 1970 -/

/-- The number of the first of January 1970. -/
def epoch : ℕ := 719163

/-- `datetime.fromtimestamp(ts, tz=timezone.utc)`; `none` is an `OSError` as well. -/
def fromTimestamp (ts : ℤ) : Option DateTime :=
  let day := epoch + ts / 86400
  let second := (ts % 86400).toNat
  if day < 1 then none
  else do
    let date ← Date.ofOrdinal day.toNat
    new date (second / 3600) (second / 60 % 60) (second % 60) 0 (some 0)

/-- The microseconds from 1970 to a time with an offset. -/
def micros (dt : DateTime) : ℤ :=
  (((dt.date.ordinal : ℤ) - epoch) * 86400 +
    (dt.hour * 3600 + dt.minute * 60 + dt.second : ℕ)) * 1000000 + dt.microsecond -
    dt.offset.getD 0

/-- `a / b` to the nearest whole number, to the even one of two. -/
def roundHalfEven (a b : ℕ) : ℕ :=
  if 2 * (a % b) < b ∨ 2 * (a % b) = b ∧ a / b % 2 = 0 then a / b else a / b + 1

/-- `int(n / 10**6)`: the quotient is a float, whose mantissa has 53 bits. -/
def wholeSeconds (n : ℕ) : ℕ :=
  let scale := 2 ^ (52 - Nat.log2 (n / 1000000))
  if n / 1000000 = 0 then 0 else roundHalfEven (n * scale) 1000000 / scale

/-- `int(dt.timestamp())` for a time with an offset. -/
def timestamp (dt : DateTime) : ℤ :=
  if 0 ≤ dt.micros then wholeSeconds dt.micros.toNat else -wholeSeconds (-dt.micros).toNat

/-! ## Formatting -/

/-- `dt.strftime("%Y-%m-%d %H:%M:%S")`; the year is not padded. -/
def strftime (dt : DateTime) : String :=
  pyStr dt.date.year ++ "-" ++ zeroPadded 2 dt.date.month ++ "-" ++ zeroPadded 2 dt.date.day ++
    " " ++ zeroPadded 2 dt.hour ++ ":" ++ zeroPadded 2 dt.minute ++ ":" ++ zeroPadded 2 dt.second

end DateTime

/-! ## ISO 8601 -/

/-- The first `k` characters, if they are ASCII digits. -/
def takeDigits (k : ℕ) (cs : List Char) : Option (ℕ × List Char) :=
  if (cs.take k).length = k ∧ (cs.take k).all Char.isDigit then
    some (Nat.ofDigitChars 10 (cs.take k) 0, cs.drop k)
  else none

/-- Where the date ends in a text of at least seven characters: `YYYY-MM-DD`, `YYYYMMDD`,
`YYYY-Www`, `YYYYWww`, `YYYY-Www-D` or `YYYYWwwD`. -/
def isoSeparator (cs : List Char) : Option ℕ :=
  if cs.length = 7 then some 7
  else if cs[4]? = some '-' then
    if cs[5]? = some 'W' then
      if 8 < cs.length ∧ cs[8]? = some '-' then
        if cs.length = 9 then none
        -- Either the hyphen is the separator or the digit is.
        else if (cs[10]?).any Char.isDigit then some 8
        else some 10
      else some 8
    else some 10
  else if cs[4]? = some 'W' then
    let stop := 7 + ((cs.drop 7).takeWhile Char.isDigit).length
    if stop < 9 then some stop else if stop % 2 = 0 then some 7 else some 8
  else some 8

/-- The number of the Monday of week 1. -/
def isoWeek1Monday (year : ℕ) : ℕ :=
  let first := daysBeforeYear year + 1
  let weekday := (first + 6) % 7
  if 3 < weekday then first - weekday + 7 else first - weekday

def isoWeekDate (year week day : ℕ) : Option Date :=
  let first := (daysBeforeYear year + 1) % 7
  if (1 ≤ year ∧ year ≤ 9999) ∧ (1 ≤ day ∧ day ≤ 7) ∧ 1 ≤ week ∧
      (week ≤ 52 ∨ week = 53 ∧ (first = 4 ∨ first = 3 ∧ isLeap year)) then
    Date.ofOrdinal (isoWeek1Monday year + (week - 1) * 7 + (day - 1))
  else none

def isoDate (cs : List Char) : Option Date := do
  let (year, cs) ← takeDigits 4 cs
  let dashed := cs.head? == some '-'
  match if dashed then cs.tail else cs with
  | 'W' :: cs => do
    let (week, cs) ← takeDigits 2 cs
    if cs = [] then isoWeekDate year week 1
    else if (cs.head? == some '-') ≠ dashed then none
    else do
      let (day, cs) ← takeDigits 1 (if dashed then cs.tail else cs)
      if cs = [] then isoWeekDate year week day else none
  | cs => do
    let (month, cs) ← takeDigits 2 cs
    if (cs.head? == some '-') ≠ dashed then none
    else do
      let (day, cs) ← takeDigits 2 (if dashed then cs.tail else cs)
      if cs = [] then Date.ofYmd year month day else none

/-- A fraction of a second, to the microsecond; further digits are dropped. -/
def isoFraction : List Char → Option ℕ
  | [] => some 0
  | c :: cs =>
    if (c = '.' ∨ c = ',') ∧ cs ≠ [] ∧ cs.all Char.isDigit then
      some (Nat.ofDigitChars 10 ((cs ++ List.replicate 6 '0').take 6) 0)
    else none

/-- `HH`, `HH:MM`, `HH:MM:SS` with or without a fraction, or the same without colons. -/
def isoClock (cs : List Char) : Option (ℕ × ℕ × ℕ × ℕ) := do
  let (hour, cs) ← takeDigits 2 cs
  let colon := cs.head? == some ':'
  if cs = [] then some (hour, 0, 0, 0)
  else do
    let (minute, cs) ← takeDigits 2 (if colon then cs.tail else cs)
    if cs = [] then some (hour, minute, 0, 0)
    else if colon ∧ cs.head? ≠ some ':' then none
    else do
      let (second, cs) ← takeDigits 2 (if colon then cs.tail else cs)
      let microsecond ← isoFraction cs
      some (hour, minute, second, microsecond)

/-- A clock time with or without an offset, which is less than a day. -/
def isoTime (cs : List Char) : Option ((ℕ × ℕ × ℕ × ℕ) × Option ℤ) := do
  let i := cs.findIdx fun c => c = '+' ∨ c = '-' ∨ c = 'Z'
  let clock ← isoClock (cs.take i)
  match cs.drop i with
  | [] => some (clock, none)
  | 'Z' :: rest => if rest = [] then some (clock, some 0) else none
  | sign :: rest => do
    let (hour, minute, second, microsecond) ← isoClock rest
    let offset := ((hour * 60 + minute) * 60 + second) * 1000000 + microsecond
    if 86400000000 ≤ offset then none
    else if sign = '-' then some (clock, some (-offset))
    else some (clock, some offset)

/-- `datetime.fromisoformat(text)`, in the documented grammar: any character separates the date from
the time. CPython also lets one stray character stand before an offset. -/
def fromIsoFormat (text : String) : Option DateTime :=
  let cs := text.toList
  if cs.length < 7 then none
  else do
    let i ← isoSeparator cs
    let date ← isoDate (cs.take i)
    match cs.drop i with
    | [] => DateTime.new date 0 0 0 0 none
    | _ :: cs => do
      let ((hour, minute, second, microsecond), offset) ← isoTime cs
      DateTime.new date hour minute second microsecond offset

/-! ## `strptime` -/

/-- A part of a format. -/
inductive FormatItem where
  | year
  | month
  | day
  | hour
  | minute
  | second
  | space
  | literal (c : Char)

/-- A character between two ASCII characters, with its value as a digit. -/
def charRange (low high c : Char) : Option ℕ := if low ≤ c ∧ c ≤ high then pyDecimal c else none

/-- Two digits. -/
def twoDigits (tens ones : Char → Option ℕ) : List Char → Option (ℕ × List Char)
  | c :: c' :: cs => do
    let d ← tens c
    let d' ← ones c'
    return (10 * d + d', cs)
  | _ => none

def oneDigit (ones : Char → Option ℕ) : List Char → Option (ℕ × List Char)
  | c :: cs => do
    let d ← ones c
    return (d, cs)
  | _ => none

/-- What stands in a field, in the order in which the regular expression tries it. -/
def fieldMatches (cs : List Char) : FormatItem → List (ℕ × List Char)
  | .year => (do
      let (high, cs) ← twoDigits pyDecimal pyDecimal cs
      let (low, cs) ← twoDigits pyDecimal pyDecimal cs
      return (100 * high + low, cs)).toList
  | .month => [twoDigits (charRange '1' '1') (charRange '0' '2') cs,
      twoDigits (charRange '0' '0') (charRange '1' '9') cs,
      oneDigit (charRange '1' '9') cs].filterMap id
  | .day => [twoDigits (charRange '3' '3') (charRange '0' '1') cs,
      twoDigits (charRange '1' '2') pyDecimal cs,
      twoDigits (charRange '0' '0') (charRange '1' '9') cs,
      oneDigit (charRange '1' '9') cs,
      twoDigits (fun c => if c = ' ' then some 0 else none) (charRange '1' '9') cs].filterMap id
  | .hour => [twoDigits (charRange '2' '2') (charRange '0' '3') cs,
      twoDigits (charRange '0' '1') pyDecimal cs, oneDigit pyDecimal cs].filterMap id
  | .minute => [twoDigits (charRange '0' '5') pyDecimal cs, oneDigit pyDecimal cs].filterMap id
  | .second => [twoDigits (charRange '6' '6') (charRange '0' '1') cs,
      twoDigits (charRange '0' '5') pyDecimal cs, oneDigit pyDecimal cs].filterMap id
  | .space | .literal _ => []

/-- The matches of a format with the values of its fields, in the order in which they are tried. -/
def formatMatches : List FormatItem → List Char → List (List ℕ × List Char)
  | [], cs => [([], cs)]
  | .space :: items, cs =>
    (List.range (cs.takeWhile pyIsSpace).length).reverse.flatMap fun k =>
      formatMatches items (cs.drop (k + 1))
  | .literal c :: items, cs =>
    if cs.head? = some c then formatMatches items cs.tail else []
  | item :: items, cs =>
    (fieldMatches cs item).flatMap fun (value, cs) =>
      (formatMatches items cs).map fun (values, rest) => (value :: values, rest)

/-- `datetime.strptime(text, format)`, for a format with a date or with a date and a time: the first
match has to be that of the whole text. -/
def strptime (format : List FormatItem) (text : String) : Option DateTime :=
  match (formatMatches format text.toList).head? with
  | some ([year, month, day], []) => do
    let date ← Date.ofYmd year month day
    DateTime.new date 0 0 0 0 none
  | some ([year, month, day, hour, minute, second], []) => do
    let date ← Date.ofYmd year month day
    DateTime.new date hour minute second 0 none
  | _ => none

/-! ## Seconds of a whole time -/

namespace DateTime

variable {dt dt' : DateTime} {ts ts' : ℤ}

/-- A quotient that is a whole number is exact. -/
theorem roundHalfEven_mul {a b : ℕ} (hb : 0 < b) : roundHalfEven (a * b) b = a := by
  rw [roundHalfEven, Nat.mul_mod_left, Nat.mul_div_left a hb, if_pos (Or.inl (by omega))]

theorem wholeSeconds_mul (n : ℕ) : wholeSeconds (n * 1000000) = n := by
  have hdiv : n * 1000000 / 1000000 = n := Nat.mul_div_left n (by decide)
  rw [wholeSeconds, hdiv]
  split
  · omega
  · rw [Nat.mul_right_comm, roundHalfEven_mul (by decide)]
    exact Nat.mul_div_left n (Nat.two_pow_pos _)

theorem timestamp_of_micros (h : dt.micros = ts * 1000000) : dt.timestamp = ts := by
  rw [timestamp, h]
  split
  · obtain ⟨n, rfl⟩ := Int.eq_ofNat_of_zero_le (show 0 ≤ ts by omega)
    have hn : ((n : ℤ) * 1000000).toNat = n * 1000000 := by omega
    rw [hn, wholeSeconds_mul]
  · obtain ⟨n, hn⟩ := Int.eq_ofNat_of_zero_le (show 0 ≤ -ts by omega)
    have hn' : (-(ts * 1000000)).toNat = n * 1000000 := by omega
    rw [hn', wholeSeconds_mul]
    omega

/-- The day and the time of the day of a timestamp. -/
theorem fromTimestamp_spec (h : fromTimestamp ts = some dt) :
    (dt.date.ordinal : ℤ) = epoch + ts / 86400 ∧
      (dt.hour * 3600 + dt.minute * 60 + dt.second : ℤ) = ts % 86400 ∧
      dt.microsecond = 0 ∧ dt.offset = some 0 := by
  unfold fromTimestamp at h
  dsimp only at h
  split at h
  · cases h
  · obtain ⟨date, hdate, hnew⟩ := Option.bind_eq_some_iff.mp h
    obtain ⟨date', hdate', hordinal⟩ :=
      Date.ofOrdinal_eq (show 1 ≤ (epoch + ts / 86400 : ℤ).toNat by omega)
    obtain rfl : date = date' := Option.some.inj (hdate.symm.trans hdate')
    unfold new at hnew
    split at hnew
    · obtain rfl := Option.some.inj hnew
      refine ⟨?_, ?_, rfl, rfl⟩
      · show (date.ordinal : ℤ) = _
        omega
      · show (((ts % 86400).toNat / 3600 : ℕ) * 3600 + ((ts % 86400).toNat / 60 % 60 : ℕ) * 60 +
          ((ts % 86400).toNat % 60 : ℕ) : ℤ) = _
        omega
    · cases hnew

/-- The microseconds of a timestamp. -/
theorem micros_fromTimestamp (h : fromTimestamp ts = some dt) : dt.micros = ts * 1000000 := by
  obtain ⟨hday, hclock, hmicro, hoffset⟩ := fromTimestamp_spec h
  rw [micros, hmicro, hoffset, Option.getD_some]
  omega

end DateTime

/-! ## Reading back the text -/

/-- Padded digits are read back. -/
theorem takeDigits_zeroPadded {k n : ℕ} (hk : 0 < k) (h : n < 10 ^ k) (rest : List Char) :
    takeDigits k ((zeroPadded k n).toList ++ rest) = some (n, rest) := by
  have hlength := length_zeroPadded hk h
  have hall : (zeroPadded k n).toList.all Char.isDigit = true :=
    List.all_eq_true.mpr fun c hc => isDigit_zeroPadded hc
  rw [takeDigits, List.take_left' hlength, List.drop_left' hlength, if_pos ⟨hlength, hall⟩,
    ofDigitChars_zeroPadded]

/-- A year of four digits is not padded. -/
theorem pyStr_year {year : ℕ} (h : 1000 ≤ year) (h' : year ≤ 9999) :
    pyStr year = zeroPadded 4 year := by
  have hle : (Nat.toDigits 10 year).length ≤ 4 :=
    (Nat.length_toDigits_le_iff (by decide) (by decide)).mpr (by omega)
  have hgt : ¬ (Nat.toDigits 10 year).length ≤ 3 := fun hle' => by
    have := (Nat.length_toDigits_le_iff (by decide) (by decide)).mp hle'
    omega
  have htext : (pyStr year).toList = Nat.toDigits 10 year := Nat.toList_repr
  have hpad : 4 - (Nat.toDigits 10 year).length = 0 := by omega
  rw [← String.toList_inj, htext, toList_zeroPadded, hpad, List.replicate_zero, List.nil_append]

/-- A character of a number is neither a letter nor a sign. -/
theorem head_zeroPadded (k n : ℕ) : ∃ c cs, (zeroPadded k n).toList = c :: cs ∧
    c.isDigit = true := by
  cases hlist : (zeroPadded k n).toList with
  | nil =>
    have hlength := congrArg List.length hlist
    rw [toList_zeroPadded, List.length_append] at hlength
    have hpos := Nat.length_toDigits_pos (b := 10) (n := n)
    simp only [List.length_nil] at hlength
    omega
  | cons c cs => exact ⟨c, cs, rfl, isDigit_zeroPadded (hlist ▸ List.mem_cons_self)⟩

namespace DateTime

variable {dt dt' : DateTime}

/-- The characters of the date. -/
def dateChars (d : Date) : List Char :=
  (zeroPadded 4 d.year).toList ++ '-' :: ((zeroPadded 2 d.month).toList ++
    '-' :: (zeroPadded 2 d.day).toList)

/-- The characters of the time of the day. -/
def clockChars (dt : DateTime) : List Char :=
  (zeroPadded 2 dt.hour).toList ++ ':' :: ((zeroPadded 2 dt.minute).toList ++
    ':' :: (zeroPadded 2 dt.second).toList)

theorem toList_strftime (h : 1000 ≤ dt.date.year) :
    dt.strftime.toList = dateChars dt.date ++ ' ' :: dt.clockChars := by
  rw [strftime, pyStr_year h dt.year_le]
  simp [dateChars, clockChars]

theorem isoDate_dateChars (d : Date) (h : d.year ≤ 9999) : isoDate (dateChars d) = some d := by
  have hmonth := d.month_range.2
  have hday : d.day < 10 ^ 2 := by
    have hle := d.day_range.2.trans daysInMonth_le
    omega
  have hyear := @takeDigits_zeroPadded 4 d.year (by decide) (by omega)
  have htwo := @takeDigits_zeroPadded 2 d.month (by decide) (by omega)
  have hlast := takeDigits_zeroPadded (by decide) hday []
  rw [List.append_nil] at hlast
  obtain ⟨c, cs, hhead, hdigit⟩ := head_zeroPadded 2 d.month
  simp only [isoDate, dateChars, hyear, Option.bind_eq_bind, Option.bind_some, List.head?_cons,
    List.tail_cons, beq_self_eq_true, if_true]
  split
  · rename_i heq
    rw [hhead, List.cons_append, List.cons.injEq] at heq
    rw [heq.1] at hdigit
    exact absurd hdigit (by decide)
  · simp [htwo, hlast]

theorem length_dateChars (d : Date) (h : d.year ≤ 9999) : (dateChars d).length = 10 := by
  have hmonth := d.month_range.2
  have hday := d.day_range.2.trans daysInMonth_le
  simp only [dateChars, List.length_append, List.length_cons]
  rw [length_zeroPadded (by decide) (show d.year < 10 ^ 4 by omega),
    length_zeroPadded (by decide) (show d.month < 10 ^ 2 by omega),
    length_zeroPadded (by decide) (show d.day < 10 ^ 2 by omega)]

/-- The date ends where the space stands. -/
theorem isoSeparator_dateChars (d : Date) (h : d.year ≤ 9999) (rest : List Char) :
    isoSeparator (dateChars d ++ ' ' :: rest) = some 10 := by
  have hten := length_dateChars d h
  have hfour : (zeroPadded 4 d.year).toList.length = 4 :=
    length_zeroPadded (by decide) (by omega)
  obtain ⟨c, cs, hhead, hdigit⟩ := head_zeroPadded 2 d.month
  have hchars : dateChars d ++ ' ' :: rest = (zeroPadded 4 d.year).toList ++ '-' :: c :: (cs ++
      ('-' :: (zeroPadded 2 d.day).toList ++ ' ' :: rest)) := by
    simp [dateChars, hhead]
  have hminus : (dateChars d ++ ' ' :: rest)[4]? = some '-' := by
    rw [hchars, List.getElem?_append_right (by omega), hfour]
    rfl
  have hweek : (dateChars d ++ ' ' :: rest)[5]? = some c := by
    rw [hchars, List.getElem?_append_right (by omega), hfour]
    rfl
  have hletter : c ≠ 'W' := by
    rintro rfl
    exact absurd hdigit (by decide)
  have hlong : (dateChars d ++ ' ' :: rest).length ≠ 7 := by
    rw [List.length_append, hten]
    omega
  rw [isoSeparator, if_neg hlong, if_pos hminus, hweek, if_neg (by simpa using hletter)]

theorem isoClock_clockChars (dt : DateTime) :
    isoClock dt.clockChars = some (dt.hour, dt.minute, dt.second, 0) := by
  have hhour := @takeDigits_zeroPadded 2 dt.hour (by decide) (dt.hour_lt.trans (by decide))
  have hminute := @takeDigits_zeroPadded 2 dt.minute (by decide) (dt.minute_lt.trans (by decide))
  have hsecond := takeDigits_zeroPadded (show 0 < 2 by decide) (dt.second_lt.trans (by decide)) []
  rw [List.append_nil] at hsecond
  simp [isoClock, clockChars, hhour, hminute, hsecond, isoFraction]

/-- Padded numbers with a character between them. -/
theorem mem_joined {c sep : Char} {j k l n n' n'' : ℕ}
    (h : c ∈ (zeroPadded j n).toList ++ sep :: ((zeroPadded k n').toList ++
      sep :: (zeroPadded l n'').toList)) : c.isDigit = true ∨ c = sep := by
  simp only [List.mem_append, List.mem_cons] at h
  rcases h with h | h | h | h | h
  · exact Or.inl (isDigit_zeroPadded h)
  · exact Or.inr h
  · exact Or.inl (isDigit_zeroPadded h)
  · exact Or.inr h
  · exact Or.inl (isDigit_zeroPadded h)

theorem mem_clockChars {c : Char} (h : c ∈ dt.clockChars) : c.isDigit = true ∨ c = ':' :=
  mem_joined h

theorem mem_dateChars {d : Date} {c : Char} (h : c ∈ dateChars d) : c.isDigit = true ∨ c = '-' :=
  mem_joined h

theorem isoTime_clockChars (dt : DateTime) :
    isoTime dt.clockChars = some ((dt.hour, dt.minute, dt.second, 0), none) := by
  have hnone : dt.clockChars.findIdx (fun c => c = '+' ∨ c = '-' ∨ c = 'Z') =
      dt.clockChars.length := by
    refine List.findIdx_eq_length.mpr fun c hc => decide_eq_false ?_
    rcases mem_clockChars hc with hdigit | rfl
    · rintro (rfl | rfl | rfl) <;> exact absurd hdigit (by decide)
    · decide
  rw [isoTime]
  simp only [hnone, List.take_length, List.drop_length, isoClock_clockChars, Option.bind_eq_bind,
    Option.bind_some]

/-- The text of a time from the year 1000 on is read back as the time without its offset. -/
theorem fromIsoFormat_strftime (h : 1000 ≤ dt.date.year) (hmicro : dt.microsecond = 0) :
    fromIsoFormat dt.strftime = some { dt with offset := none } := by
  have hlength := length_dateChars dt.date dt.year_le
  have hlong : ¬ (dateChars dt.date ++ ' ' :: dt.clockChars).length < 7 := by
    rw [List.length_append, hlength]
    omega
  have hnew : new dt.date dt.hour dt.minute dt.second 0 none =
      some { dt with offset := none } := by
    have hzero : 0 < 1000000 := by decide
    rw [new, dif_pos ⟨dt.year_le, dt.hour_lt, dt.minute_lt, dt.second_lt, hzero⟩]
    simp only [hmicro]
  rw [fromIsoFormat, toList_strftime h]
  simp only [hlong, if_false, isoSeparator_dateChars dt.date dt.year_le, Option.bind_eq_bind,
    Option.bind_some, List.take_left' hlength, List.drop_left' hlength,
    isoDate_dateChars dt.date dt.year_le, isoTime_clockChars, hnew]

/-! ## The order of the texts -/

/-- One padded number after the other: the first that differs decides. -/
theorem padded_cons_lt {k n m : ℕ} (hk : 0 < k) (hn : n < 10 ^ k) (hm : m < 10 ^ k) {c : Char}
    {rest rest' : List Char} (h : n < m ∨ n = m ∧ rest < rest') :
    (zeroPadded k n).toList ++ c :: rest < (zeroPadded k m).toList ++ c :: rest' := by
  rcases h with hlt | ⟨rfl, hrest⟩
  · refine append_lt_append ?_ (zeroPadded_lt hk hlt hm) _ _
    rw [length_zeroPadded hk hn, length_zeroPadded hk hm]
  · exact List.append_left_lt (List.cons_lt_cons_iff.mpr (Or.inr ⟨rfl, hrest⟩))

theorem dateChars_lt {d d' : Date} (h : d.year ≤ 9999) (h' : d'.year ≤ 9999)
    (hearlier : d.Earlier d') : dateChars d < dateChars d' := by
  have hmonth := d.month_range.2
  have hmonth' := d'.month_range.2
  have hday := d'.day_range.2.trans daysInMonth_le
  refine padded_cons_lt (by decide) (by omega) (by omega) ?_
  rcases hearlier with hyear | ⟨hyear, hrest⟩
  · exact Or.inl hyear
  · refine Or.inr ⟨hyear, padded_cons_lt (by decide) (by omega) (by omega) ?_⟩
    rcases hrest with hlt | ⟨heq, hlast⟩
    · exact Or.inl hlt
    · exact Or.inr ⟨heq, zeroPadded_lt (by decide) hlast (by omega)⟩

theorem clockChars_lt (h : dt.hour * 3600 + dt.minute * 60 + dt.second <
    dt'.hour * 3600 + dt'.minute * 60 + dt'.second) : dt.clockChars < dt'.clockChars := by
  have hhour := dt.hour_lt
  have hhour' := dt'.hour_lt
  have hminute := dt.minute_lt
  have hminute' := dt'.minute_lt
  have hsecond := dt.second_lt
  have hsecond' := dt'.second_lt
  refine padded_cons_lt (by decide) (by omega) (by omega) ?_
  rcases Nat.lt_or_ge dt.hour dt'.hour with hlt | hge
  · exact Or.inl hlt
  · refine Or.inr ⟨by omega, padded_cons_lt (by decide) (by omega) (by omega) ?_⟩
    rcases Nat.lt_or_ge dt.minute dt'.minute with hlt | hge'
    · exact Or.inl hlt
    · exact Or.inr ⟨by omega, zeroPadded_lt (by decide) (by omega) (by omega)⟩

/-- Later times have later texts. -/
theorem strftime_lt {ts ts' : ℤ} (hdt : fromTimestamp ts = some dt)
    (hdt' : fromTimestamp ts' = some dt') (h : 1000 ≤ dt.date.year) (h' : 1000 ≤ dt'.date.year)
    (hlt : ts < ts') : dt.strftime < dt'.strftime := by
  obtain ⟨hday, hclock, -, -⟩ := fromTimestamp_spec hdt
  obtain ⟨hday', hclock', -, -⟩ := fromTimestamp_spec hdt'
  rw [String.lt_iff, toList_strftime h, toList_strftime h']
  rcases Nat.lt_or_ge dt.date.ordinal dt'.date.ordinal with hordinal | hordinal
  · refine append_lt_append ?_ ?_ _ _
    · rw [length_dateChars _ dt.year_le, length_dateChars _ dt'.year_le]
    · exact dateChars_lt dt.year_le dt'.year_le (Date.earlier_of_ordinal_lt hordinal)
  · have hsame : dt.date = dt'.date := Date.ordinal_injective (by omega)
    rw [hsame]
    refine List.append_left_lt (List.cons_lt_cons_iff.mpr (Or.inr ⟨rfl, clockChars_lt ?_⟩))
    omega

end DateTime

end BaseWebService.Library
