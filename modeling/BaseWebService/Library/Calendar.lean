import Mathlib.Tactic.Common
import Mathlib.Order.Monotone.Basic

/-!
# The Gregorian calendar

Dates from the first of January of the year 1 on, numbered day by day from 1: the number of a date,
and the date of a number by counting off cycles of 400, 100, 4 and 1 years. Each undoes the other,
and a later date has a larger number.
-/

namespace BaseWebService.Library

def isLeap (year : ℕ) : Bool := year % 4 = 0 ∧ (year % 100 ≠ 0 ∨ year % 400 = 0)

def daysInMonth (year month : ℕ) : ℕ :=
  if month = 2 then if isLeap year then 29 else 28
  else if month = 4 ∨ month = 6 ∨ month = 9 ∨ month = 11 then 30
  else 31

/-- Days before the first of January. -/
def daysBeforeYear (year : ℕ) : ℕ :=
  let y := year - 1
  y * 365 + y / 4 - y / 100 + y / 400

/-- Days in a common year before the first of the month. -/
def commonDaysBefore (month : ℕ) : ℕ :=
  [0, 0, 31, 59, 90, 120, 151, 181, 212, 243, 273, 304, 334].getD month 0

def daysBeforeMonth (year month : ℕ) : ℕ :=
  commonDaysBefore month + if 2 < month ∧ isLeap year then 1 else 0

/-- A date that exists. -/
@[ext] structure Date where
  year : ℕ
  month : ℕ
  day : ℕ
  year_pos : 1 ≤ year
  month_range : 1 ≤ month ∧ month ≤ 12
  day_range : 1 ≤ day ∧ day ≤ daysInMonth year month
  deriving DecidableEq

def Date.ofYmd (year month day : ℕ) : Option Date :=
  if h : 1 ≤ year ∧ (1 ≤ month ∧ month ≤ 12) ∧ 1 ≤ day ∧ day ≤ daysInMonth year month then
    some ⟨year, month, day, h.1, h.2.1, h.2.2⟩
  else none

/-- The number of a date, the first of January of the year 1 being day 1. -/
def Date.ordinal (d : Date) : ℕ :=
  daysBeforeYear d.year + daysBeforeMonth d.year d.month + d.day

/-- The month and the day that is `n` days after the first of January; the estimate of the month is
exact or one too large. -/
def monthDay (leap : Bool) (n : ℕ) : ℕ × ℕ :=
  let before := fun month => commonDaysBefore month + if 2 < month ∧ leap then 1 else 0
  let month := (n + 50) / 32
  if n < before month then (month - 1, n - before (month - 1) + 1)
  else (month, n - before month + 1)

/-- Year, month and day of the day number `n`. -/
def ymdOfOrdinal (n : ℕ) : ℕ × ℕ × ℕ :=
  let n := n - 1
  let n400 := n / 146097
  let n := n % 146097
  let n100 := n / 36524
  let n := n % 36524
  let n4 := n / 1461
  let n := n % 1461
  let n1 := n / 365
  let n := n % 365
  let year := n400 * 400 + 1 + n100 * 100 + n4 * 4 + n1
  -- The last day of a cycle.
  if n1 = 4 ∨ n100 = 4 then (year - 1, 12, 31)
  else (year, monthDay (n1 = 3 ∧ (n4 ≠ 24 ∨ n100 = 3)) n)

/-! ## Later dates -/

section later
variable {year month : ℕ}

theorem daysInMonth_le : daysInMonth year month ≤ 31 := by
  unfold daysInMonth
  grind

theorem daysBeforeYear_succ (h : 1 ≤ year) :
    daysBeforeYear (year + 1) = daysBeforeYear year + if isLeap year then 366 else 365 := by
  obtain ⟨y, rfl⟩ := Nat.exists_eq_add_of_le' h
  have hfour : (y + 1) / 4 = y / 4 + if (y + 1) % 4 = 0 then 1 else 0 := by
    split <;> omega
  have hhundred : (y + 1) / 100 = y / 100 + if (y + 1) % 100 = 0 then 1 else 0 := by
    split <;> omega
  have hcycle : (y + 1) / 400 = y / 400 + if (y + 1) % 400 = 0 then 1 else 0 := by
    split <;> omega
  have hle : y / 100 ≤ y / 4 := Nat.div_le_div_left (by decide) (by decide)
  have hnext : (y + 1) % 100 = 0 → (y + 1) % 4 = 0 := by omega
  have hlast : (y + 1) % 400 = 0 → (y + 1) % 100 = 0 := by omega
  simp only [daysBeforeYear, isLeap, Nat.add_sub_cancel, hfour, hhundred, hcycle,
    decide_eq_true_eq]
  clear hfour hhundred hcycle
  grind

theorem daysBeforeYear_mono : Monotone daysBeforeYear := by
  refine monotone_nat_of_le_succ fun year => ?_
  rcases Nat.eq_zero_or_pos year with rfl | hpos
  · decide
  · rw [daysBeforeYear_succ hpos]
    omega

theorem daysBeforeMonth_succ (year : ℕ) (h : 1 ≤ month ∧ month < 12) :
    daysBeforeMonth year (month + 1) = daysBeforeMonth year month + daysInMonth year month := by
  have hall : ∀ leap : Bool, ∀ month < 12, 1 ≤ month →
      commonDaysBefore (month + 1) + (if 2 < month + 1 ∧ leap then 1 else 0) =
        commonDaysBefore month + (if 2 < month ∧ leap then 1 else 0) +
          if month = 2 then if leap then 29 else 28
          else if month = 4 ∨ month = 6 ∨ month = 9 ∨ month = 11 then 30 else 31 := by decide
  exact hall (isLeap year) month h.2 h.1

/-- The last day of December is the last of the year. -/
theorem daysBeforeMonth_december (year : ℕ) :
    daysBeforeMonth year 12 + daysInMonth year 12 = if isLeap year then 366 else 365 := by
  cases hleap : isLeap year <;> simp [daysBeforeMonth, daysInMonth, commonDaysBefore, hleap]

theorem daysBeforeMonth_mono (year : ℕ) {month' : ℕ} (h : 1 ≤ month) (hle : month ≤ month')
    (h' : month' ≤ 12) : daysBeforeMonth year month ≤ daysBeforeMonth year month' := by
  induction month', hle using Nat.le_induction with
  | base => exact Nat.le_refl _
  | succ m hm ih =>
    rw [daysBeforeMonth_succ year ⟨h.trans hm, h'⟩]
    exact (ih (Nat.le_of_succ_le h')).trans (Nat.le_add_right _ _)

namespace Date

variable {d d' : Date}

/-- By year, then by month, then by day. -/
def Earlier (d d' : Date) : Prop :=
  d.year < d'.year ∨ d.year = d'.year ∧
    (d.month < d'.month ∨ d.month = d'.month ∧ d.day < d'.day)

theorem daysBeforeYear_lt_ordinal (d : Date) : daysBeforeYear d.year < d.ordinal := by
  have hday := d.day_range.1
  rw [ordinal]
  omega

theorem ordinal_le (d : Date) : d.ordinal ≤ daysBeforeYear (d.year + 1) := by
  have hday := d.day_range.2
  rw [ordinal, daysBeforeYear_succ d.year_pos, ← daysBeforeMonth_december]
  rcases Nat.lt_or_ge d.month 12 with hmonth | hmonth
  · have hnext := daysBeforeMonth_succ d.year ⟨d.month_range.1, hmonth⟩
    have hmono := daysBeforeMonth_mono d.year (Nat.le_add_left 1 d.month) hmonth
      (Nat.le_refl 12)
    omega
  · rw [Nat.le_antisymm d.month_range.2 hmonth] at hday ⊢
    omega

/-- A later date has a larger number. -/
theorem Earlier.ordinal_lt (h : d.Earlier d') : d.ordinal < d'.ordinal := by
  rcases h with hyear | ⟨hyear, hmonth | ⟨hmonth, hday⟩⟩
  · calc d.ordinal ≤ daysBeforeYear (d.year + 1) := d.ordinal_le
      _ ≤ daysBeforeYear d'.year := daysBeforeYear_mono hyear
      _ < d'.ordinal := d'.daysBeforeYear_lt_ordinal
  · have hrange := d.month_range
    have hrange' := d'.month_range
    have hnext := daysBeforeMonth_succ d.year ⟨hrange.1, by omega⟩
    have hmono := daysBeforeMonth_mono d.year (Nat.le_add_left 1 d.month) hmonth
      hrange'.2
    have hday := d.day_range
    have hday' := d'.day_range
    rw [ordinal, ordinal, ← hyear]
    omega
  · rw [ordinal, ordinal, hyear, hmonth]
    omega

theorem earlier_or (d d' : Date) : d.Earlier d' ∨ d = d' ∨ d'.Earlier d := by
  unfold Earlier
  rw [Date.ext_iff]
  omega

theorem earlier_of_ordinal_lt (h : d.ordinal < d'.ordinal) : d.Earlier d' := by
  rcases d.earlier_or d' with hearlier | rfl | hlater
  · exact hearlier
  · exact absurd h (Nat.lt_irrefl _)
  · exact absurd hlater.ordinal_lt (Nat.lt_asymm h)

theorem ordinal_injective : Function.Injective ordinal := by
  intro d d' h
  rcases d.earlier_or d' with hearlier | heq | hlater
  · exact absurd h hearlier.ordinal_lt.ne
  · exact heq
  · exact absurd h hlater.ordinal_lt.ne'

end Date

end later

/-! ## The date of a number -/

/-- The days of a year, one after the other. -/
theorem monthDay_spec {year n : ℕ} (h : n < if isLeap year then 366 else 365) :
    (1 ≤ (monthDay (isLeap year) n).1 ∧ (monthDay (isLeap year) n).1 ≤ 12) ∧
      (1 ≤ (monthDay (isLeap year) n).2 ∧
        (monthDay (isLeap year) n).2 ≤ daysInMonth year (monthDay (isLeap year) n).1) ∧
      daysBeforeMonth year (monthDay (isLeap year) n).1 + (monthDay (isLeap year) n).2 = n + 1 := by
  have hall : ∀ leap : Bool, ∀ n < if leap then 366 else 365,
      (1 ≤ (monthDay leap n).1 ∧ (monthDay leap n).1 ≤ 12) ∧
      (1 ≤ (monthDay leap n).2 ∧ (monthDay leap n).2 ≤
        if (monthDay leap n).1 = 2 then if leap then 29 else 28
        else if (monthDay leap n).1 = 4 ∨ (monthDay leap n).1 = 6 ∨ (monthDay leap n).1 = 9 ∨
          (monthDay leap n).1 = 11 then 30 else 31) ∧
      commonDaysBefore (monthDay leap n).1 + (if 2 < (monthDay leap n).1 ∧ leap then 1 else 0) +
        (monthDay leap n).2 = n + 1 := by decide +kernel
  exact hall (isLeap year) n h

/-- Days before a year that is put together from cycles. -/
theorem daysBeforeYear_cycles (n400 : ℕ) {n100 n4 n1 : ℕ} (h100 : n100 < 4) (h4 : n4 < 25)
    (h1 : n1 < 4) :
    daysBeforeYear (n400 * 400 + 1 + n100 * 100 + n4 * 4 + n1) =
      n400 * 146097 + n100 * 36524 + n4 * 1461 + n1 * 365 := by
  have hsub : n400 * 400 + 1 + n100 * 100 + n4 * 4 + n1 - 1 =
      n400 * 400 + n100 * 100 + n4 * 4 + n1 := by omega
  have hfour : (n400 * 400 + n100 * 100 + n4 * 4 + n1) / 4 = n400 * 100 + n100 * 25 + n4 := by omega
  have hhundred : (n400 * 400 + n100 * 100 + n4 * 4 + n1) / 100 = n400 * 4 + n100 := by omega
  have hcycle : (n400 * 400 + n100 * 100 + n4 * 4 + n1) / 400 = n400 := by omega
  rw [daysBeforeYear, hsub, hfour, hhundred, hcycle]
  omega

theorem isLeap_cycles (n400 : ℕ) {n100 n4 n1 : ℕ} (h100 : n100 < 4) (h4 : n4 < 25) (h1 : n1 < 4) :
    isLeap (n400 * 400 + 1 + n100 * 100 + n4 * 4 + n1) =
      decide (n1 = 3 ∧ (n4 ≠ 24 ∨ n100 = 3)) := by
  rw [isLeap, decide_eq_decide]
  omega

/-- The last day of a year. -/
theorem exists_december {year : ℕ} (h : 1 ≤ year) : ∃ d : Date,
    (year, 12, 31) = (d.year, d.month, d.day) ∧ d.ordinal = daysBeforeYear (year + 1) := by
  have hdays : daysInMonth year 12 = 31 := rfl
  refine ⟨⟨year, 12, 31, h, by decide, by simp [hdays]⟩, rfl, ?_⟩
  have hlast := daysBeforeMonth_december year
  show daysBeforeYear year + daysBeforeMonth year 12 + 31 = _
  rw [daysBeforeYear_succ h]
  omega

/-- The date of a number has that number. -/
theorem ymdOfOrdinal_spec {n : ℕ} (h : 1 ≤ n) : ∃ d : Date,
    ymdOfOrdinal n = (d.year, d.month, d.day) ∧ d.ordinal = n := by
  obtain ⟨n, rfl⟩ := Nat.exists_eq_add_of_le' h
  rw [ymdOfOrdinal, Nat.add_sub_cancel]
  generalize h400 : n / 146097 = n400
  generalize hr400 : n % 146097 = r400
  generalize h100 : r400 / 36524 = n100
  generalize hr100 : r400 % 36524 = r100
  generalize h4 : r100 / 1461 = n4
  generalize hr4 : r100 % 1461 = r4
  generalize h1 : r4 / 365 = n1
  generalize hr1 : r4 % 365 = r1
  split
  case isTrue hlast =>
    -- A cycle of 400 or of 4 years is complete.
    obtain ⟨year, hyear, hnext⟩ : ∃ year, n400 * 400 + 1 + n100 * 100 + n4 * 4 + n1 = year + 1 ∧
        1 ≤ year := ⟨n400 * 400 + n100 * 100 + n4 * 4 + n1, by omega, by omega⟩
    obtain ⟨d, hd, hordinal⟩ := exists_december hnext
    rw [hyear, Nat.add_sub_cancel]
    refine ⟨d, hd, ?_⟩
    rw [hordinal]
    by_cases h100' : n100 = 4
    · have hcycles := daysBeforeYear_cycles (n400 + 1) (Nat.succ_pos 3) (Nat.succ_pos 24)
        (Nat.succ_pos 3)
      have hsame : daysBeforeYear (year + 1) = _ :=
          (congrArg daysBeforeYear (by omega)).trans hcycles
      omega
    · have hfour : n4 + 1 < 25 := by omega
      have hcycles := daysBeforeYear_cycles n400 (show n100 < 4 by omega) hfour (Nat.succ_pos 3)
      have hsame : daysBeforeYear (year + 1) = _ :=
          (congrArg daysBeforeYear (by omega)).trans hcycles
      omega
  case isFalse hwithin =>
    have h100' : n100 < 4 := by omega
    have h4' : n4 < 25 := by omega
    have h1' : n1 < 4 := by omega
    rw [← isLeap_cycles n400 h100' h4' h1']
    have hdays := daysBeforeYear_cycles n400 h100' h4' h1'
    have hr : r1 < if isLeap (n400 * 400 + 1 + n100 * 100 + n4 * 4 + n1) then 366 else 365 := by
      split <;> omega
    obtain ⟨hmonth, hday, hsum⟩ := monthDay_spec hr
    refine ⟨⟨_, _, _, by omega, hmonth, hday⟩, rfl, ?_⟩
    rw [Date.ordinal, Nat.add_assoc, hsum, hdays]
    omega

/-- The date with a number. -/
def Date.ofOrdinal (n : ℕ) : Option Date :=
  let (year, month, day) := ymdOfOrdinal n
  Date.ofYmd year month day

namespace Date

@[simp] theorem ofYmd_self (d : Date) : ofYmd d.year d.month d.day = some d := by
  rw [ofYmd, dif_pos ⟨d.year_pos, d.month_range, d.day_range⟩]

theorem ofOrdinal_eq {n : ℕ} (h : 1 ≤ n) : ∃ d, ofOrdinal n = some d ∧ d.ordinal = n := by
  obtain ⟨d, hymd, hordinal⟩ := ymdOfOrdinal_spec h
  refine ⟨d, ?_, hordinal⟩
  rw [ofOrdinal, hymd]
  exact ofYmd_self d

/-- A date is the date of its number. -/
@[simp] theorem ofOrdinal_ordinal (d : Date) : ofOrdinal d.ordinal = some d := by
  have hpos : 1 ≤ d.ordinal := Nat.lt_of_le_of_lt (Nat.zero_le _) d.daysBeforeYear_lt_ordinal
  obtain ⟨d', hd', hordinal⟩ := ofOrdinal_eq hpos
  rw [hd', ordinal_injective hordinal]

end Date

example : (Date.ofOrdinal 719163).map (fun d => (d.year, d.month, d.day)) = some (1970, 1, 1) := by
  decide

end BaseWebService.Library
