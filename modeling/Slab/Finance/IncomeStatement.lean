import Slab.Finance.FiscalPeriod
import Slab.Finance.Receivables

/-!
# The income statement

The report of `GET /api/v1/finance/income-statement`: the invoices of a fiscal period, summed and
counted. Fiscal periods tile the calendar, so the report of a year is that of its months together.

## Main definitions

- `IncomeStatement.execute` — the report
- `IncomeStatement.Months` — the reports of the months of a year

## Main results

- `execute_runs_ok` — what the report returns
- `sum_months` — a sum over the invoices of a year, month by month
- `fiscal_periods_tile` — the dates of a period, the period after it, and the report of a year
-/

namespace Slab

open Txn
open Db (Due)

namespace IncomeStatement

structure IncomeStatementQuery where
  year : ℤ
  monthStart : Option ℤ
  monthEnd : Option ℤ

structure IncomeStatementResponse where
  period : String
  totalIncome : ℤ
  totalExpense : ℤ
  grossProfit : ℤ
  salesInvoiceCount : ℤ
  purchaseInvoiceCount : ℤ
deriving DecidableEq

/-- `m as u32`. -/
def asU32 (m : ℤ) : ℕ := (m % 2 ^ 32).toNat

/-- `WHERE invoice_date >= $1 AND invoice_date <= $2`. -/
def between (start last : Date) (rows : List Due) : List Due :=
  rows.filter fun d => d.date.any fun x => decide (start ≤ x ∧ x ≤ last)

/-- `SELECT COALESCE(SUM(total_amount), 0)::BIGINT` on the table of the type. -/
def totalBetween (t : InvoiceType) (start last : Date) (db : Db) : Except AppError ℤ :=
  InvoicePort.toBigint ((between start last (db.dues t)).map Due.total).sum

/-- `SELECT COUNT(*)::BIGINT` on the table of the type. -/
def countBetween (t : InvoiceType) (start last : Date) (db : Db) : ℤ :=
  (between start last (db.dues t)).length

def execute (chrono : Chrono) (query : IncomeStatementQuery) : Handler IncomeStatementResponse := do
  let fiscal ← Prog.ofExcept ((FiscalPeriod.tryNew chrono query.year
    (query.monthStart.map asU32) (query.monthEnd.map asU32)).mapError AppError.finance)
  let start := fiscal.startDate
  let last := fiscal.endDate
  let sales ← Prog.select (totalBetween .sales start last)
  let income ← Prog.ofExcept sales
  let purchases ← Prog.select (totalBetween .purchase start last)
  let expense ← Prog.ofExcept purchases
  let salesCount ← Prog.select (countBetween .sales start last)
  let purchaseCount ← Prog.select (countBetween .purchase start last)
  pure
    { period := fiscal.label
      totalIncome := income
      totalExpense := expense
      grossProfit := Arith.i64.sub income expense
      salesInvoiceCount := salesCount
      purchaseInvoiceCount := purchaseCount }

/-! ## What the report returns -/

/-- The total of the invoices of a period. -/
def total (t : InvoiceType) (p : FiscalPeriod) (db : Db) : ℤ :=
  ((between p.startDate p.endDate (db.dues t)).map Due.total).sum

def response (p : FiscalPeriod) (db : Db) : IncomeStatementResponse :=
  { period := p.label
    totalIncome := total .sales p db
    totalExpense := total .purchase p db
    grossProfit := Arith.i64.sub (total .sales p db) (total .purchase p db)
    salesInvoiceCount := countBetween .sales p.startDate p.endDate db
    purchaseInvoiceCount := countBetween .purchase p.startDate p.endDate db }

variable {chrono : Chrono} {query : IncomeStatementQuery} {db db' : Db}
  {r : IncomeStatementResponse}

theorem mapError_eq_ok {ε ε' α : Type} {x : Except ε α} {f : ε → ε'} {a : α} :
    x.mapError f = .ok a ↔ x = .ok a := by
  cases x with
  | error e => exact iff_of_false (fun h => by cases h) fun h => by cases h
  | ok b => simp [Except.mapError]

/-- The report returns the totals and the counts of the period, where the totals are BIGINTs. -/
theorem execute_runs_ok : (execute chrono query).Runs db db' (.ok r) ↔ db' = db ∧
    ∃ p, FiscalPeriod.tryNew chrono query.year (query.monthStart.map asU32)
        (query.monthEnd.map asU32) = .ok p ∧
      (Arith.i64.Fits (total .sales p db) ∧ Arith.i64.Fits (total .purchase p db)) ∧
      r = response p db := by
  unfold execute
  simp only [Prog.runs_bind_ok, Prog.runs_ofExcept, Prog.runs_select, Prog.pure_eq,
    Prog.runs_ret, Except.ok.injEq, totalBetween]
  constructor
  · rintro ⟨_, p, ⟨rfl, hp⟩, _, _, ⟨rfl, rfl⟩, _, income, ⟨rfl, hincome⟩, _, _, ⟨rfl, rfl⟩, _,
      expense, ⟨rfl, hexpense⟩, _, _, ⟨rfl, rfl⟩, _, _, ⟨rfl, rfl⟩, rfl, rfl⟩
    obtain ⟨hfits, rfl⟩ := InvoicePort.toBigint_eq_ok.mp hincome.symm
    obtain ⟨hfits', rfl⟩ := InvoicePort.toBigint_eq_ok.mp hexpense.symm
    exact ⟨rfl, p, mapError_eq_ok.mp hp.symm, ⟨hfits, hfits'⟩, rfl⟩
  · rintro ⟨rfl, p, hp, ⟨hfits, hfits'⟩, rfl⟩
    exact ⟨_, p, ⟨rfl, (mapError_eq_ok.mpr hp).symm⟩, _, _, ⟨rfl, rfl⟩, _, _,
      ⟨rfl, (InvoicePort.toBigint_eq_ok.mpr ⟨hfits, rfl⟩).symm⟩, _, _, ⟨rfl, rfl⟩, _, _,
      ⟨rfl, (InvoicePort.toBigint_eq_ok.mpr ⟨hfits', rfl⟩).symm⟩, _, _, ⟨rfl, rfl⟩, _, _,
      ⟨rfl, rfl⟩, rfl, rfl⟩

/-! ## Months -/

section Months

variable {first last year : ℤ} {monthStart monthEnd : Option ℕ} {p : FiscalPeriod}
  {month : ℕ → FiscalPeriod}

/-- The months of a period. -/
def months (monthStart monthEnd : Option ℕ) : Finset ℕ :=
  Finset.Icc (FiscalPeriod.effectiveStart monthStart)
    (FiscalPeriod.effectiveEnd monthStart monthEnd)

/-- A date of the period is in one month of it. -/
theorem covers_month_iff (hchrono : chrono.Proleptic first last)
    (hp : FiscalPeriod.tryNew chrono year monthStart monthEnd = .ok p)
    (hmonth : ∀ m ∈ months monthStart monthEnd,
      FiscalPeriod.tryNew chrono year (some m) none = .ok (month m))
    (d : Gregorian.Date) {m : ℕ} (hm : m ∈ months monthStart monthEnd) :
    (month m).Covers d.toDay ↔ p.Covers d.toDay ∧ m = d.month := by
  rw [FiscalPeriod.covers_iff hchrono hp, FiscalPeriod.covers_iff hchrono (hmonth m hm)]
  simp only [months, Finset.mem_Icc] at hm
  simp only [FiscalPeriod.effectiveStart, FiscalPeriod.effectiveEnd, Option.getD_some,
    Option.getD_none, Option.isSome_some, if_true] at hm ⊢
  omega

/-- What an invoice adds to a sum over the invoices of a period. -/
theorem sum_between (p : FiscalPeriod) (g : Due → ℤ) (rows : List Due) :
    ((between p.startDate p.endDate rows).map g).sum =
      (rows.map fun d => if d.date.any (fun x => p.Covers x) then g d else 0).sum :=
  InvoicePort.sum_filter_eq _ g rows

/-- A sum over the invoices of a period is the sum of those over its months. -/
theorem sum_months (hchrono : chrono.Proleptic first last)
    (hp : FiscalPeriod.tryNew chrono year monthStart monthEnd = .ok p)
    (hmonth : ∀ m ∈ months monthStart monthEnd,
      FiscalPeriod.tryNew chrono year (some m) none = .ok (month m))
    (g : Due → ℤ) (rows : List Due) : ((between p.startDate p.endDate rows).map g).sum =
      ∑ m ∈ months monthStart monthEnd,
        ((between (month m).startDate (month m).endDate rows).map g).sum := by
  -- one invoice at a time
  have hdue : ∀ d : Due, (if d.date.any (fun x => p.Covers x) then g d else 0) =
      ∑ m ∈ months monthStart monthEnd,
        if d.date.any (fun x => (month m).Covers x) then g d else 0 := by
    intro d
    cases d.date with
    | none => simp
    | some x =>
      obtain ⟨date, rfl⟩ := Gregorian.Date.exists_toDay x
      simp only [Option.any_some, decide_eq_true_eq]
      by_cases hcovers : p.Covers date.toDay
      · have hmem : date.month ∈ months monthStart monthEnd := by
          rw [months, Finset.mem_Icc]
          exact ((FiscalPeriod.covers_iff hchrono hp date).mp hcovers).2
        rw [if_pos hcovers, Finset.sum_eq_single_of_mem date.month hmem]
        · rw [if_pos ((covers_month_iff hchrono hp hmonth date hmem).mpr ⟨hcovers, rfl⟩)]
        · intro m hm hne
          rw [if_neg fun h => hne ((covers_month_iff hchrono hp hmonth date hm).mp h).2]
      · rw [if_neg hcovers]
        apply (Finset.sum_eq_zero fun m hm => ?_).symm
        rw [if_neg fun h => hcovers ((covers_month_iff hchrono hp hmonth date hm).mp h).1]
  simp only [sum_between]
  induction rows with
  | nil => simp
  | cons d rows ih =>
    simp only [List.map_cons, List.sum_cons, Finset.sum_add_distrib]
    rw [hdue d, ih]

theorem count_months (hchrono : chrono.Proleptic first last)
    (hp : FiscalPeriod.tryNew chrono year monthStart monthEnd = .ok p)
    (hmonth : ∀ m ∈ months monthStart monthEnd,
      FiscalPeriod.tryNew chrono year (some m) none = .ok (month m)) (t : InvoiceType) (db : Db) :
    countBetween t p.startDate p.endDate db =
      ∑ m ∈ months monthStart monthEnd,
        countBetween t (month m).startDate (month m).endDate db := by
  have hone : ∀ rows : List Due, (rows.length : ℤ) = (rows.map fun _ => (1 : ℤ)).sum := by
    intro rows
    simp
  simp only [countBetween, hone]
  exact sum_months hchrono hp hmonth _ _

end Months

/-- A month that is asked for by its number. -/
def monthQuery (year : ℤ) (m : ℕ) : IncomeStatementQuery := ⟨year, some m, none⟩

/-- The report is the sum of the reports of the months. -/
structure Sums (r : IncomeStatementResponse) (ms : Finset ℕ)
    (rs : ℕ → IncomeStatementResponse) : Prop where
  totalIncome : r.totalIncome = ∑ m ∈ ms, (rs m).totalIncome
  totalExpense : r.totalExpense = ∑ m ∈ ms, (rs m).totalExpense
  grossProfit : r.grossProfit = Arith.i64.norm (∑ m ∈ ms, (rs m).grossProfit)
  salesInvoiceCount : r.salesInvoiceCount = ∑ m ∈ ms, (rs m).salesInvoiceCount
  purchaseInvoiceCount : r.purchaseInvoiceCount = ∑ m ∈ ms, (rs m).purchaseInvoiceCount

theorem asU32_natCast {m : ℕ} (h : m ≤ 12) : asU32 m = m := by
  unfold asU32
  omega

/-- The report of a period is that of its months together. -/
theorem sums_of_runs {first last : ℤ} (hchrono : chrono.Proleptic first last)
    (hr : (execute chrono query).Runs db db (.ok r)) {rs : ℕ → IncomeStatementResponse}
    (hrs : ∀ m ∈ months (query.monthStart.map asU32) (query.monthEnd.map asU32),
      (execute chrono (monthQuery query.year m)).Runs db db (.ok (rs m))) :
    Sums r (months (query.monthStart.map asU32) (query.monthEnd.map asU32)) rs := by
  obtain ⟨-, p, hp, -, rfl⟩ := execute_runs_ok.mp hr
  obtain ⟨hadmits, -⟩ := (FiscalPeriod.tryNew_eq_ok hchrono).mp hp
  -- the periods of the months
  have hmonths : ∀ m ∈ months (query.monthStart.map asU32) (query.monthEnd.map asU32),
      ∃ q, FiscalPeriod.tryNew chrono query.year (some m) none = .ok q ∧ rs m = response q db := by
    intro m hm
    obtain ⟨-, q, hq, -, hrsm⟩ := execute_runs_ok.mp (hrs m hm)
    have hle : m ≤ 12 := (Finset.mem_Icc.mp hm).2.trans hadmits.end_mem.2
    refine ⟨q, ?_, hrsm⟩
    simpa only [monthQuery, Option.map_some, Option.map_none, asU32_natCast hle] using hq
  choose! month hmonth hresponse using hmonths
  have htotal : ∀ t, total t p db =
      ∑ m ∈ months (query.monthStart.map asU32) (query.monthEnd.map asU32), total t (month m) db :=
    fun t => sum_months hchrono hp hmonth Due.total (db.dues t)
  have hsum : ∀ f : IncomeStatementResponse → ℤ,
      ∑ m ∈ months (query.monthStart.map asU32) (query.monthEnd.map asU32), f (rs m) =
        ∑ m ∈ months (query.monthStart.map asU32) (query.monthEnd.map asU32),
          f (response (month m) db) :=
    fun f => Finset.sum_congr rfl fun m hm => congrArg f (hresponse m hm)
  constructor
  · rw [hsum]
    exact htotal .sales
  · rw [hsum]
    exact htotal .purchase
  · rw [hsum]
    show Arith.i64.norm (total .sales p db - total .purchase p db) = _
    rw [htotal, htotal, ← Finset.sum_sub_distrib]
    exact (Arith.norm_sum _ _).symm
  · rw [hsum]
    exact count_months hchrono hp hmonth .sales db
  · rw [hsum]
    exact count_months hchrono hp hmonth .purchase db

/-- The periods tile the calendar. -/
structure Tiles (chrono : Chrono) : Prop where
  /-- The dates of a period are those of its months. -/
  dates : ∀ {year : ℤ} {monthStart monthEnd : Option ℕ} {p : FiscalPeriod},
    FiscalPeriod.tryNew chrono year monthStart monthEnd = .ok p → ∀ d : Gregorian.Date,
      p.startDate ≤ d.toDay ∧ d.toDay ≤ p.endDate ↔
        d.year = year ∧ FiscalPeriod.effectiveStart monthStart ≤ d.month ∧
          d.month ≤ FiscalPeriod.effectiveEnd monthStart monthEnd
  /-- The next period begins the day after. -/
  adjacent : ∀ {year year' : ℤ} {monthStart monthEnd monthStart' monthEnd' : Option ℕ}
    {p q : FiscalPeriod}, FiscalPeriod.tryNew chrono year monthStart monthEnd = .ok p →
      FiscalPeriod.tryNew chrono year' monthStart' monthEnd' = .ok q → p.Follows q →
        q.startDate = p.endDate + 1
  /-- The months of a period are periods. -/
  months : ∀ {year : ℤ} {monthStart monthEnd : Option ℕ} {p : FiscalPeriod},
    FiscalPeriod.tryNew chrono year monthStart monthEnd = .ok p →
      ∀ m ∈ months monthStart monthEnd, ∃ q, FiscalPeriod.tryNew chrono year (some m) none = .ok q
  /-- The report of a period, such as a whole year, is that of its months together. -/
  report : ∀ {query : IncomeStatementQuery} {db : Db} {r : IncomeStatementResponse}
    {rs : ℕ → IncomeStatementResponse}, (execute chrono query).Runs db db (.ok r) →
      (∀ m ∈ IncomeStatement.months (query.monthStart.map asU32) (query.monthEnd.map asU32),
        (execute chrono (monthQuery query.year m)).Runs db db (.ok (rs m))) →
        Sums r (IncomeStatement.months (query.monthStart.map asU32) (query.monthEnd.map asU32)) rs

/-- Where `chrono` has the proleptic Gregorian calendar, fiscal periods have neither gaps nor
overlaps, and the report of a year is the union of those of its months. -/
theorem fiscal_periods_tile {first last : ℤ} (hchrono : chrono.Proleptic first last) :
    Tiles chrono where
  dates hp := FiscalPeriod.covers_iff hchrono hp
  adjacent hp hq := FiscalPeriod.startDate_eq_of_follows hchrono hp hq
  months hp m hm := by
    obtain ⟨hadmits, -⟩ := (FiscalPeriod.tryNew_eq_ok hchrono).mp hp
    obtain ⟨hge, hle⟩ := Finset.mem_Icc.mp hm
    have hmem : 1 ≤ m ∧ m ≤ 12 := ⟨hadmits.start_mem.1.trans hge, hle.trans hadmits.end_mem.2⟩
    exact ⟨_, (FiscalPeriod.tryNew_eq_ok hchrono).mpr
      ⟨⟨hadmits.year_mem, hmem, hmem, le_rfl⟩, rfl⟩⟩
  report hr hrs := sums_of_runs hchrono hr hrs

theorem fiscal_periods_tile_naiveDate : Tiles Chrono.naiveDate :=
  fiscal_periods_tile Chrono.naiveDate_proleptic

/-- The whole year 2024, and its February. -/
example : FiscalPeriod.tryNew Chrono.naiveDate 2024 none none =
    .ok ⟨2024, 1, 12, 738886, 739251⟩ := by decide

example : FiscalPeriod.tryNew Chrono.naiveDate 2024 (some 2) none =
    .ok ⟨2024, 2, 2, 738917, 738945⟩ := by decide

end IncomeStatement

end Slab
