import Slab.Erp.Db
import Slab.Calendar.Gregorian

/-!
# Fiscal periods

A report is asked for by a year and, optionally, by the months from one to another. `FiscalPeriod`
fills in what is missing and works out the first and the last day.

## Main definitions

- `Chrono` — what is used of `chrono::NaiveDate`, and `Chrono.Proleptic`, what it has to be
- `Chrono.naiveDate` — the calendar of its years
- `FiscalPeriod.tryNew` — the months and the days of a period
- `FiscalPeriod.Admits` — the arguments for which there is a period

## Main results

- `tryNew_eq_ok` — the periods that there are, from the first of a month to the last of a month
- `covers_iff` — the dates of a period are those of its months
- `endDate_add_one_eq_startDate` — a period begins where the one before it ends
-/

namespace Slab

/-- What is used of `chrono::NaiveDate`, with a day for a date. -/
structure Chrono where
  fromYmdOpt : ℤ → ℕ → ℕ → Option Date
  predOpt : Date → Option Date

/-- The proleptic Gregorian calendar, from the year `first` to the year `last`. -/
structure Chrono.Proleptic (chrono : Chrono) (first last : ℤ) : Prop where
  fromYmdOpt_eq_some : ∀ {year : ℤ} {month day : ℕ} {x : Date},
    chrono.fromYmdOpt year month day = some x ↔ first ≤ year ∧ year ≤ last ∧
      ∃ d : Gregorian.Date, d.year = year ∧ d.month = month ∧ d.day = day ∧ d.toDay = x
  predOpt_eq_some : ∀ {d : Gregorian.Date} {x : Date}, first ≤ d.year → d.year ≤ last →
    (chrono.predOpt d.toDay = some x ↔
      ∃ e : Gregorian.Date, first ≤ e.year ∧ e.toDay = d.toDay - 1 ∧ e.toDay = x)

namespace Chrono

/-- The calendar of the years from `NaiveDate::MIN` to `NaiveDate::MAX`. -/
def naiveDate : Chrono where
  fromYmdOpt year month day :=
    if h : (-262143 ≤ year ∧ year ≤ 262142) ∧ (1 ≤ month ∧ month ≤ 12) ∧
        1 ≤ day ∧ day ≤ Gregorian.daysInMonth year month then
      some (Gregorian.Date.toDay ⟨year, month, day, h.2.1, h.2.2⟩)
    else none
  predOpt x :=
    if (Gregorian.Date.firstOf (-262143) 1 (by decide)).toDay < x then some (x - 1) else none

theorem naiveDate_proleptic : naiveDate.Proleptic (-262143) 262142 where
  fromYmdOpt_eq_some := by
    intro year month day x
    unfold naiveDate
    constructor
    · intro h
      obtain ⟨⟨⟨hfirst, hlast⟩, hmonth, hday⟩, hx⟩ := Option.dite_none_right_eq_some.mp h
      exact ⟨hfirst, hlast, _, rfl, rfl, rfl, Option.some.inj hx⟩
    · rintro ⟨hfirst, hlast, d, rfl, rfl, rfl, rfl⟩
      exact dif_pos ⟨⟨hfirst, hlast⟩, d.month_mem, d.day_mem⟩
  predOpt_eq_some := by
    intro d x hfirst hlast
    have hmin : ∀ e : Gregorian.Date,
        (Gregorian.Date.firstOf (-262143) 1 (by decide)).toDay ≤ e.toDay ↔ -262143 ≤ e.year := by
      intro e
      have hmonth := e.month_mem.1
      have hday := e.day_mem.1
      rw [Gregorian.Date.toDay_le_iff]
      simp only [Gregorian.Date.Before, Gregorian.Date.firstOf]
      omega
    unfold naiveDate
    constructor
    · intro h
      obtain ⟨hlt, hx⟩ := Option.ite_none_right_eq_some.mp h
      obtain ⟨e, he⟩ := d.exists_previous
      refine ⟨e, (hmin e).mp ?_, he, he.trans (Option.some.inj hx)⟩
      omega
    · rintro ⟨e, hyear, he, rfl⟩
      have hle := (hmin e).mpr hyear
      rw [he] at hle ⊢
      exact if_pos (by omega)

end Chrono

structure FiscalPeriod where
  year : ℤ
  monthStart : ℕ
  monthEnd : ℕ
  startDate : Date
  endDate : Date
deriving DecidableEq, Inhabited

namespace FiscalPeriod

/-- `month_start.unwrap_or(1)`. -/
def effectiveStart (monthStart : Option ℕ) : ℕ := monthStart.getD 1

/-- The month that is missing is the first one, or December where this is missing as well. -/
def effectiveEnd (monthStart monthEnd : Option ℕ) : ℕ :=
  monthEnd.getD (if monthStart.isSome then effectiveStart monthStart else 12)

/-- The last day: the one before the first of the next month, but in December. -/
def lastDay (chrono : Chrono) (year : ℤ) (monthEnd : ℕ) : Option Date :=
  if monthEnd = 12 then chrono.fromYmdOpt year 12 31
  else (chrono.fromYmdOpt year (monthEnd + 1) 1).bind chrono.predOpt

def tryNew (chrono : Chrono) (year : ℤ) (monthStart monthEnd : Option ℕ) :
    Except FinanceError FiscalPeriod :=
  if year < 1 then .error .invalidPeriod
  else
    let first := effectiveStart monthStart
    let last := effectiveEnd monthStart monthEnd
    if ¬ (1 ≤ first ∧ first ≤ 12) ∨ ¬ (1 ≤ last ∧ last ≤ 12) ∨ last < first then
      .error .invalidPeriod
    else
      match chrono.fromYmdOpt year first 1 with
      | none => .error .invalidPeriod
      | some startDate =>
        match lastDay chrono year last with
        | none => .error .invalidPeriod
        | some endDate => .ok ⟨year, first, last, startDate, endDate⟩

/-- `{:02}`. -/
def twoDigits (month : ℕ) : String :=
  if month < 10 then "0" ++ toString month else toString month

/-- `2026-07`, or `2026-01~2026-12`. -/
def label (p : FiscalPeriod) : String :=
  let start := toString p.year ++ "-" ++ twoDigits p.monthStart
  if p.monthStart = p.monthEnd then start
  else start ++ "~" ++ toString p.year ++ "-" ++ twoDigits p.monthEnd

/-- The date is in the period: `start_date <= d && d <= end_date`. -/
def Covers (p : FiscalPeriod) (x : Date) : Prop := p.startDate ≤ x ∧ x ≤ p.endDate

instance (p : FiscalPeriod) (x : Date) : Decidable (p.Covers x) := inferInstanceAs (Decidable (_ ∧ _))

section Proleptic

variable {chrono : Chrono} {first last year : ℤ} {monthStart monthEnd : Option ℕ}
  {p q : FiscalPeriod}

/-- The months of the year that are asked for. -/
structure Admits (first last year : ℤ) (monthStart monthEnd : Option ℕ) : Prop where
  year_mem : 1 ≤ year ∧ first ≤ year ∧ year ≤ last
  start_mem : 1 ≤ effectiveStart monthStart ∧ effectiveStart monthStart ≤ 12
  end_mem : 1 ≤ effectiveEnd monthStart monthEnd ∧ effectiveEnd monthStart monthEnd ≤ 12
  start_le_end : effectiveStart monthStart ≤ effectiveEnd monthStart monthEnd

theorem fromYmdOpt_firstOf (hchrono : chrono.Proleptic first last) (hfirst : first ≤ year)
    (hlast : year ≤ last) {month : ℕ} (h : 1 ≤ month ∧ month ≤ 12) :
    chrono.fromYmdOpt year month 1 = some (Gregorian.Date.firstOf year month h).toDay :=
  hchrono.fromYmdOpt_eq_some.mpr ⟨hfirst, hlast, _, rfl, rfl, rfl, rfl⟩

theorem lastDay_eq (hchrono : chrono.Proleptic first last) (hfirst : first ≤ year)
    (hlast : year ≤ last) {month : ℕ} (h : 1 ≤ month ∧ month ≤ 12) :
    lastDay chrono year month = some (Gregorian.Date.lastOf year month h).toDay := by
  unfold lastDay
  split
  · next htwelve =>
    subst htwelve
    exact hchrono.fromYmdOpt_eq_some.mpr ⟨hfirst, hlast, _, rfl, rfl, rfl, rfl⟩
  · next htwelve =>
    have hnext : 1 ≤ month + 1 ∧ month + 1 ≤ 12 := by omega
    rw [fromYmdOpt_firstOf hchrono hfirst hlast hnext, Option.bind_some]
    apply (hchrono.predOpt_eq_some hfirst hlast).mpr
    refine ⟨Gregorian.Date.lastOf year month h, hfirst, ?_, rfl⟩
    have hsucc := Gregorian.Date.toDay_firstOf_succ year month h hnext
    omega

/-- A period is there for every year of the calendar and its months in order, and it goes from the
first day of the first one to the last day of the last one. -/
theorem tryNew_eq_ok (hchrono : chrono.Proleptic first last) :
    tryNew chrono year monthStart monthEnd = .ok p ↔
      ∃ h : Admits first last year monthStart monthEnd,
        p = ⟨year, effectiveStart monthStart, effectiveEnd monthStart monthEnd,
          (Gregorian.Date.firstOf year _ h.start_mem).toDay,
          (Gregorian.Date.lastOf year _ h.end_mem).toDay⟩ := by
  unfold tryNew
  dsimp only
  split
  · next hyear =>
    refine iff_of_false (fun h => by cases h) ?_
    rintro ⟨h, -⟩
    have hmem := h.year_mem
    omega
  next hyear =>
  split
  · next hmonths =>
    refine iff_of_false (fun h => by cases h) ?_
    rintro ⟨h, -⟩
    have hstart := h.start_mem
    have hend := h.end_mem
    have hle := h.start_le_end
    omega
  next hmonths =>
  have hstart : 1 ≤ effectiveStart monthStart ∧ effectiveStart monthStart ≤ 12 := by omega
  have hend : 1 ≤ effectiveEnd monthStart monthEnd ∧ effectiveEnd monthStart monthEnd ≤ 12 := by
    omega
  by_cases hyears : first ≤ year ∧ year ≤ last
  · rw [fromYmdOpt_firstOf hchrono hyears.1 hyears.2 hstart,
      lastDay_eq hchrono hyears.1 hyears.2 hend]
    dsimp only
    rw [Except.ok.injEq]
    constructor
    · rintro rfl
      exact ⟨⟨⟨not_lt.mp hyear, hyears⟩, hstart, hend, by omega⟩, rfl⟩
    · rintro ⟨-, rfl⟩
      rfl
  · -- the calendar does not have the year
    have hnone : chrono.fromYmdOpt year (effectiveStart monthStart) 1 = none := by
      apply Option.eq_none_iff_forall_ne_some.mpr
      intro x hx
      obtain ⟨hfirst, hlast, -⟩ := hchrono.fromYmdOpt_eq_some.mp hx
      exact hyears ⟨hfirst, hlast⟩
    rw [hnone]
    refine iff_of_false (fun h => by cases h) ?_
    rintro ⟨h, -⟩
    exact hyears h.year_mem.2

/-- The dates of a period are those of its months. -/
theorem covers_iff (hchrono : chrono.Proleptic first last)
    (h : tryNew chrono year monthStart monthEnd = .ok p) (d : Gregorian.Date) :
    p.Covers d.toDay ↔ d.year = year ∧ effectiveStart monthStart ≤ d.month ∧
      d.month ≤ effectiveEnd monthStart monthEnd := by
  obtain ⟨hadmits, rfl⟩ := (tryNew_eq_ok hchrono).mp h
  exact Gregorian.Date.between_months_iff hadmits.start_mem hadmits.end_mem

/-- The period `q` begins with the month after the last one of `p`. -/
def Follows (p q : FiscalPeriod) : Prop :=
  q.year = p.year ∧ q.monthStart = p.monthEnd + 1 ∨
    q.year = p.year + 1 ∧ q.monthStart = 1 ∧ p.monthEnd = 12

/-- A period begins the day after the one before it ends. -/
theorem startDate_eq_of_follows {year' : ℤ} {monthStart' monthEnd' : Option ℕ}
    (hchrono : chrono.Proleptic first last)
    (hp : tryNew chrono year monthStart monthEnd = .ok p)
    (hq : tryNew chrono year' monthStart' monthEnd' = .ok q) (hfollows : p.Follows q) :
    q.startDate = p.endDate + 1 := by
  obtain ⟨hadmits, rfl⟩ := (tryNew_eq_ok hchrono).mp hp
  obtain ⟨hadmits', rfl⟩ := (tryNew_eq_ok hchrono).mp hq
  have hsucc : ∀ {y : ℤ} {m m' : ℕ} (h : 1 ≤ m ∧ m ≤ 12) (h' : 1 ≤ m' ∧ m' ≤ 12), m' = m + 1 →
      (Gregorian.Date.firstOf y m' h').toDay = (Gregorian.Date.lastOf y m h).toDay + 1 := by
    rintro y m m' h h' rfl
    exact Gregorian.Date.toDay_firstOf_succ y m h h'
  have hjanuary : ∀ {y : ℤ} {m m' : ℕ} (h : 1 ≤ m ∧ m ≤ 12) (h' : 1 ≤ m' ∧ m' ≤ 12), m' = 1 →
      m = 12 →
      (Gregorian.Date.firstOf (y + 1) m' h').toDay = (Gregorian.Date.lastOf y m h).toDay + 1 := by
    rintro y m m' h h' rfl rfl
    exact Gregorian.Date.toDay_firstOf_january y
  obtain ⟨hyear, hmonth⟩ | ⟨hyear, hmonth, htwelve⟩ := hfollows
  · subst hyear
    exact hsucc _ _ hmonth
  · subst hyear
    exact hjanuary _ _ hmonth htwelve

end Proleptic

end FiscalPeriod

end Slab
