import Mathlib.Data.Int.Basic
import Mathlib.Order.Monotone.Basic
import Mathlib.Tactic.Linarith

/-!
# The proleptic Gregorian calendar

Dates of every year, before and after the reform alike, and the number of the day that each of
them is. The numbering follows the calendar: later dates have greater numbers, and every number is
some date's.

## Main definitions

- `isLeap`, `daysInMonth` — the lengths of years and months
- `Date`, `Date.toDay` — a date of the calendar, and the number of its day
- `Date.Before` — years first, then months, then days

## Main results

- `Date.toDay_lt_iff` — the numbering keeps the order
- `Date.exists_toDay` — and it leaves out nothing
- `Date.between_months_iff` — the days from the first of a month to the last of another
-/

namespace Gregorian

def isLeap (year : ℤ) : Bool := year % 4 = 0 && (year % 100 ≠ 0 || year % 400 = 0)

def daysInMonth (year : ℤ) (month : ℕ) : ℕ :=
  if month = 2 then if isLeap year then 29 else 28
  else if month = 4 ∨ month = 6 ∨ month = 9 ∨ month = 11 then 30
  else 31

structure Date where
  year : ℤ
  month : ℕ
  day : ℕ
  month_mem : 1 ≤ month ∧ month ≤ 12
  day_mem : 1 ≤ day ∧ day ≤ daysInMonth year month

/-! ## Days before a year and before a month -/

/-- The days before the first of January, counted from that of the year 1. -/
def daysBeforeYear (year : ℤ) : ℤ :=
  365 * (year - 1) + (year - 1) / 4 - (year - 1) / 100 + (year - 1) / 400

/-- The days of the first `n` months. -/
def firstMonths (year : ℤ) : ℕ → ℕ
  | 0 => 0
  | n + 1 => firstMonths year n + daysInMonth year (n + 1)

def daysInYear (year : ℤ) : ℕ := if isLeap year then 366 else 365

theorem daysBeforeYear_succ (year : ℤ) :
    daysBeforeYear (year + 1) = daysBeforeYear year + daysInYear year := by
  unfold daysBeforeYear daysInYear isLeap
  by_cases h₄ : year % 4 = 0 <;> by_cases h₁₀₀ : year % 100 = 0 <;>
    by_cases h₄₀₀ : year % 400 = 0 <;> simp [h₄, h₁₀₀, h₄₀₀] <;> omega

theorem firstMonths_twelve (year : ℤ) : firstMonths year 12 = daysInYear year := by
  unfold daysInYear
  cases h : isLeap year <;> simp [firstMonths, daysInMonth, h]

theorem daysInMonth_pos (year : ℤ) (month : ℕ) : 1 ≤ daysInMonth year month := by
  unfold daysInMonth
  split_ifs <;> omega

theorem daysBeforeYear_mono {year later : ℤ} (h : year ≤ later) :
    daysBeforeYear year ≤ daysBeforeYear later := by
  induction later, h using Int.leInduction with
  | base => exact le_rfl
  | succ later _ ih =>
    rw [daysBeforeYear_succ]
    omega

theorem firstMonths_mono (year : ℤ) : Monotone (firstMonths year) :=
  monotone_nat_of_le_succ fun _ => Nat.le_add_right _ _

namespace Date

/-! ## Numbering -/

def toDay (d : Date) : ℤ := daysBeforeYear d.year + firstMonths d.year (d.month - 1) + d.day

/-- Years first, then months, then days. -/
def Before (d e : Date) : Prop :=
  d.year < e.year ∨
    d.year = e.year ∧ (d.month < e.month ∨ d.month = e.month ∧ d.day < e.day)

variable {d e : Date}

@[ext] theorem ext_ymd (hyear : d.year = e.year) (hmonth : d.month = e.month)
    (hday : d.day = e.day) : d = e := by
  cases d
  cases e
  cases hyear
  cases hmonth
  cases hday
  rfl

/-- A day is within its month. -/
theorem toDay_le_month (d : Date) :
    d.toDay ≤ daysBeforeYear d.year + firstMonths d.year d.month := by
  obtain ⟨year, month, day, ⟨hmonth, -⟩, -, hday⟩ := d
  obtain ⟨month, rfl⟩ := Nat.exists_eq_add_of_le' hmonth
  simp only [toDay, Nat.add_sub_cancel, firstMonths]
  omega

theorem toDay_le_year (d : Date) : d.toDay ≤ daysBeforeYear (d.year + 1) := by
  have hmonth := d.toDay_le_month
  have hmonths := firstMonths_mono d.year d.month_mem.2
  rw [firstMonths_twelve] at hmonths
  rw [daysBeforeYear_succ]
  omega

theorem lt_toDay (d : Date) : daysBeforeYear d.year < d.toDay := by
  have hday := d.day_mem.1
  unfold toDay
  omega

theorem toDay_lt_of_before (h : d.Before e) : d.toDay < e.toDay := by
  obtain hyear | ⟨hyear, hmonth | ⟨hmonth, hday⟩⟩ := h
  · have hle := daysBeforeYear_mono (Int.add_one_le_of_lt hyear)
    have hd := d.toDay_le_year
    have he := e.lt_toDay
    omega
  · have hd := d.toDay_le_month
    have hle := firstMonths_mono d.year (Nat.le_sub_one_of_lt hmonth)
    have he := e.day_mem.1
    rw [hyear] at hd hle
    unfold toDay at hd ⊢
    omega
  · unfold toDay
    rw [hyear, hmonth]
    omega

theorem before_trichotomy (d e : Date) : d.Before e ∨ d = e ∨ e.Before d := by
  unfold Before
  by_cases hyear : d.year = e.year
  · by_cases hmonth : d.month = e.month
    · by_cases hday : d.day = e.day
      · exact .inr (.inl (ext_ymd hyear hmonth hday))
      · omega
    · omega
  · omega

theorem toDay_lt_iff : d.toDay < e.toDay ↔ d.Before e := by
  refine ⟨fun hlt => ?_, toDay_lt_of_before⟩
  obtain h | rfl | h := before_trichotomy d e
  · exact h
  · exact absurd hlt (lt_irrefl _)
  · exact absurd (toDay_lt_of_before h) (lt_asymm hlt)

theorem toDay_le_iff : d.toDay ≤ e.toDay ↔ ¬ e.Before d := by
  rw [← toDay_lt_iff, not_lt]

theorem toDay_injective (h : d.toDay = e.toDay) : d = e := by
  obtain hlt | heq | hlt := before_trichotomy d e
  · exact absurd h (toDay_lt_of_before hlt).ne
  · exact heq
  · exact absurd h (toDay_lt_of_before hlt).ne'

/-! ## The day after and the day before -/

def firstOf (year : ℤ) (month : ℕ) (h : 1 ≤ month ∧ month ≤ 12) : Date :=
  ⟨year, month, 1, h, le_rfl, daysInMonth_pos year month⟩

def lastOf (year : ℤ) (month : ℕ) (h : 1 ≤ month ∧ month ≤ 12) : Date :=
  ⟨year, month, daysInMonth year month, h, daysInMonth_pos year month, le_rfl⟩

theorem toDay_lastOf (year : ℤ) (month : ℕ) (h : 1 ≤ month ∧ month ≤ 12) :
    (lastOf year month h).toDay = daysBeforeYear year + firstMonths year month := by
  obtain ⟨month, rfl⟩ := Nat.exists_eq_add_of_le' h.1
  simp only [toDay, lastOf, Nat.add_sub_cancel, firstMonths]
  omega

/-- The first of a month follows the last of the month before. -/
theorem toDay_firstOf_succ (year : ℤ) (month : ℕ) (h : 1 ≤ month ∧ month ≤ 12)
    (h' : 1 ≤ month + 1 ∧ month + 1 ≤ 12) :
    (firstOf year (month + 1) h').toDay = (lastOf year month h).toDay + 1 := by
  rw [toDay_lastOf, toDay, firstOf]
  simp

/-- The first of January follows the last of December. -/
theorem toDay_firstOf_january (year : ℤ) :
    (firstOf (year + 1) 1 (by decide)).toDay = (lastOf year 12 (by decide)).toDay + 1 := by
  rw [toDay_lastOf, firstMonths_twelve, toDay, firstOf, daysBeforeYear_succ]
  simp [firstMonths]

/-- Every date has a next one. -/
theorem exists_next (d : Date) : ∃ e : Date, e.toDay = d.toDay + 1 := by
  by_cases hday : d.day < daysInMonth d.year d.month
  · refine ⟨⟨d.year, d.month, d.day + 1, d.month_mem, Nat.le_add_left _ _, hday⟩, ?_⟩
    simp only [toDay]
    omega
  -- the last day of a month
  have hlast : d = lastOf d.year d.month d.month_mem :=
    ext_ymd rfl rfl (le_antisymm d.day_mem.2 (not_lt.mp hday))
  by_cases hmonth : d.month + 1 ≤ 12
  · refine ⟨firstOf d.year (d.month + 1) ⟨Nat.le_add_left _ _, hmonth⟩, ?_⟩
    rw [toDay_firstOf_succ d.year d.month d.month_mem, ← hlast]
  · have htwelve : d.month = 12 := by
      have hle := d.month_mem.2
      omega
    refine ⟨firstOf (d.year + 1) 1 (by decide), ?_⟩
    rw [toDay_firstOf_january, hlast]
    simp only [htwelve, lastOf]

/-- And one before. -/
theorem exists_previous (d : Date) : ∃ e : Date, e.toDay = d.toDay - 1 := by
  by_cases hday : 1 < d.day
  · refine ⟨⟨d.year, d.month, d.day - 1, d.month_mem, by omega, ?_⟩, ?_⟩
    · exact (Nat.sub_le _ _).trans d.day_mem.2
    · simp only [toDay]
      omega
  have hone : d.day = 1 := le_antisymm (not_lt.mp hday) d.day_mem.1
  by_cases hmonth : 1 < d.month
  · have hmem : 1 ≤ d.month - 1 ∧ d.month - 1 ≤ 12 := by
      have hle := d.month_mem.2
      omega
    refine ⟨lastOf d.year (d.month - 1) hmem, ?_⟩
    rw [toDay_lastOf, toDay, hone]
    simp
  · have hjanuary : d.month = 1 := le_antisymm (not_lt.mp hmonth) d.month_mem.1
    have hstart := daysBeforeYear_succ (d.year - 1)
    refine ⟨lastOf (d.year - 1) 12 (by decide), ?_⟩
    rw [Int.sub_add_cancel] at hstart
    rw [toDay_lastOf, firstMonths_twelve, toDay, hone, hjanuary, hstart]
    simp [firstMonths]

/-- Every day has a date. -/
theorem exists_toDay (n : ℤ) : ∃ d : Date, d.toDay = n := by
  have hbase : (firstOf 1 1 (by decide)).toDay = 1 := by decide
  induction n using Int.inductionOn' (b := 1) with
  | zero => exact ⟨_, hbase⟩
  | succ k _ ih =>
    obtain ⟨d, rfl⟩ := ih
    exact d.exists_next
  | pred k _ ih =>
    obtain ⟨d, rfl⟩ := ih
    exact d.exists_previous

/-! ## Whole months -/

/-- The days from the first of a month to the last of a month of the same year. -/
theorem between_months_iff {year : ℤ} {first last : ℕ} (hfirst : 1 ≤ first ∧ first ≤ 12)
    (hlast : 1 ≤ last ∧ last ≤ 12) : (firstOf year first hfirst).toDay ≤ d.toDay ∧
      d.toDay ≤ (lastOf year last hlast).toDay ↔
    d.year = year ∧ first ≤ d.month ∧ d.month ≤ last := by
  have hmonth : ∀ k, d.year = year → d.month = k → d.day ≤ daysInMonth year k := by
    rintro k rfl rfl
    exact d.day_mem.2
  have hday := d.day_mem.1
  rw [toDay_le_iff, toDay_le_iff]
  simp only [Before, firstOf, lastOf]
  constructor
  · rintro ⟨hstart, hend⟩
    omega
  · rintro ⟨rfl, hge, hle⟩
    have hwithin := hmonth last rfl
    omega

end Date

end Gregorian
