import Slab.Finance.Invoices

/-!
# Unpaid totals and unpaid amounts by age

The two reports of `InvoicePort` on one table of invoices. The total sums every invoice, the
buckets only the dated invoices that are not overpaid.

## Main definitions

- `Db.unpaidSum` — the unpaid amounts of a list of invoices
- `InvoicePort.Reconciles` — the reports agree, and count each unpaid dated invoice once
- `InvoicePort.AmountsFit` — the amounts that the reports return are 64-bit integers

## Main results

- `sumUnpaid_eq_ok`, `aging_eq_ok` — what the reports return
- `unpaidSum_eq_buckets` — the unpaid amounts, bucket by bucket
- `reconciles_iff` — the reports reconcile exactly when no dated invoice is overpaid
- `creditInvoice_not_reconciles` — an invoice over a negative amount
-/

namespace Slab

open Txn
open Db (Due)

/-- The unpaid amounts of a list of invoices, together. -/
def Db.unpaidSum (rows : List Due) : ℤ := (rows.map fun d => d.total - d.paid).sum

namespace InvoicePort

/-! ## What the reports return -/

theorem toBigint_eq_ok {x y : ℤ} : toBigint x = .ok y ↔ Arith.i64.Fits x ∧ y = x := by
  unfold toBigint
  by_cases h : Arith.i64.Fits x
  · rw [if_pos h, Except.ok.injEq]
    exact ⟨fun e => ⟨h, e.symm⟩, fun e => e.2.symm⟩
  · rw [if_neg h]
    constructor
    · intro e
      cases e
    · intro e
      exact absurd e.1 h

theorem bind_eq_ok {ε α β : Type} {x : Except ε α} {f : α → Except ε β} {b : β} :
    (x >>= f) = .ok b ↔ ∃ a, x = .ok a ∧ f a = .ok b := by
  cases x with
  | error e =>
    constructor
    · intro h
      cases h
    · rintro ⟨a, h, -⟩
      cases h
  | ok a =>
    constructor
    · intro h
      exact ⟨a, rfl, h⟩
    · rintro ⟨a', ha, h⟩
      obtain rfl := Except.ok.inj ha
      exact h

/-- A function that is `g` where `P` holds and fails elsewhere, on every element of a list. -/
theorem mapM_eq_ok {ε α β : Type} {f : α → Except ε β} {P : α → Prop} {g : α → β}
    (h : ∀ x y, f x = .ok y ↔ P x ∧ y = g x) {xs : List α} {ys : List β} :
    xs.mapM f = .ok ys ↔ (∀ x ∈ xs, P x) ∧ ys = xs.map g := by
  induction xs generalizing ys with
  | nil =>
    rw [List.mapM_nil]
    show Except.ok [] = Except.ok ys ↔ _
    rw [Except.ok.injEq]
    exact ⟨fun e => ⟨fun x hx => absurd hx List.not_mem_nil, e.symm⟩, fun e => e.2.symm⟩
  | cons x xs ih =>
    rw [List.mapM_cons, bind_eq_ok]
    constructor
    · rintro ⟨y, hy, htail⟩
      obtain ⟨zs, hzs, hpure⟩ := bind_eq_ok.mp htail
      obtain ⟨hx, rfl⟩ := (h x y).mp hy
      obtain ⟨hxs, rfl⟩ := ih.mp hzs
      obtain rfl := Except.ok.inj hpure
      exact ⟨List.forall_mem_cons.mpr ⟨hx, hxs⟩, rfl⟩
    · rintro ⟨hall, rfl⟩
      obtain ⟨hx, hxs⟩ := List.forall_mem_cons.mp hall
      exact ⟨g x, (h x _).mpr ⟨hx, rfl⟩, bind_eq_ok.mpr ⟨_, ih.mpr ⟨hxs, rfl⟩, rfl⟩⟩

/-- The unpaid amounts of a list, and their sum, are 64-bit integers. -/
def Summable (rows : List Due) : Prop :=
  (∀ d ∈ rows, Arith.i64.Fits (d.total - d.paid)) ∧ Arith.i64.Fits (Db.unpaidSum rows)

theorem sumUnpaid_eq_ok {rows : List Due} {x : ℤ} :
    sumUnpaid rows = .ok x ↔ Summable rows ∧ x = Db.unpaidSum rows := by
  unfold sumUnpaid
  rw [bind_eq_ok]
  constructor
  · rintro ⟨amounts, hamounts, hx⟩
    obtain ⟨hall, rfl⟩ := (mapM_eq_ok fun _ _ => toBigint_eq_ok).mp hamounts
    obtain ⟨hfits, rfl⟩ := toBigint_eq_ok.mp hx
    exact ⟨⟨hall, hfits⟩, rfl⟩
  · rintro ⟨⟨hall, hfits⟩, rfl⟩
    exact ⟨_, (mapM_eq_ok fun _ _ => toBigint_eq_ok).mpr ⟨hall, rfl⟩,
      toBigint_eq_ok.mpr ⟨hfits, rfl⟩⟩

theorem unpaidTotal_eq (t : InvoiceType) (db : Db) : unpaidTotal t db = sumUnpaid (db.dues t) := by
  cases t <;> rfl

theorem unpaidAging_eq (t : InvoiceType) (currentDate : Date) (db : Db) :
    unpaidAging t currentDate db = aging currentDate (db.dues t) := by
  cases t <;> rfl

/-- The bucket of a group. -/
def bucketOfGroup (g : String × List Due) : UnpaidBucket := ⟨g.1, g.2.length, Db.unpaidSum g.2⟩

theorem aging_eq_ok {currentDate : Date} {rows : List Due} {buckets : List UnpaidBucket} :
    aging currentDate rows = .ok buckets ↔
      (∀ g ∈ groups currentDate rows, Summable g.2) ∧
        buckets = (groups currentDate rows).map bucketOfGroup := by
  refine mapM_eq_ok fun g b => ?_
  rw [bind_eq_ok]
  constructor
  · rintro ⟨amount, hamount, hb⟩
    obtain ⟨hsum, rfl⟩ := sumUnpaid_eq_ok.mp hamount
    exact ⟨hsum, (Except.ok.inj hb).symm⟩
  · rintro ⟨hsum, rfl⟩
    exact ⟨_, sumUnpaid_eq_ok.mpr ⟨hsum, rfl⟩, rfl⟩

/-! ## The buckets -/

theorem bucketOf_mem (currentDate date : Date) : bucketOf currentDate date ∈ bucketLabels := by
  unfold bucketOf
  split_ifs <;> simp [bucketLabels]

theorem bucketLabels_nodup : bucketLabels.Nodup := by decide

theorem counted_iff {currentDate : Date} {b : String} {d : Due} :
    Counted currentDate b d = true ↔
      ∃ date, d.date = some date ∧ d.total > d.paid ∧ bucketOf currentDate date = b := by
  obtain ⟨date, total, paid⟩ := d
  cases date with
  | none => simp [Counted]
  | some date => simp [Counted]

/-- An invoice that is counted is counted under one label. -/
theorem countP_labels (currentDate : Date) (d : Due) :
    bucketLabels.countP (fun b => Counted currentDate b d) =
      if d.date.isSome ∧ d.total > d.paid then 1 else 0 := by
  by_cases h : d.date.isSome ∧ d.total > d.paid
  · obtain ⟨date, hdate⟩ := Option.isSome_iff_exists.mp h.1
    have hcount : bucketLabels.countP (fun b => Counted currentDate b d) =
        bucketLabels.count (bucketOf currentDate date) := by
      refine List.countP_congr fun b _ => ?_
      rw [counted_iff, beq_iff_eq]
      constructor
      · rintro ⟨date', hdate', -, rfl⟩
        rw [Option.some.inj (hdate.symm.trans hdate')]
      · rintro rfl
        exact ⟨date, hdate, h.2, rfl⟩
    rw [if_pos h, hcount]
    exact List.count_eq_one_of_mem bucketLabels_nodup (bucketOf_mem currentDate date)
  · rw [if_neg h, List.countP_eq_zero]
    intro b _ hb
    obtain ⟨date, hdate, hgt, -⟩ := counted_iff.mp hb
    exact h ⟨by rw [hdate]; rfl, hgt⟩

/-- The bucket with a label has the invoices that are counted under it. -/
theorem mem_groups {currentDate : Date} {rows : List Due} {g : String × List Due} :
    g ∈ groups currentDate rows ↔
      g.1 ∈ bucketLabels ∧ g.2 = rows.filter (Counted currentDate g.1) ∧ g.2 ≠ [] := by
  unfold groups
  rw [List.mem_filter, List.mem_map, decide_eq_true_eq]
  constructor
  · rintro ⟨⟨b, hb, rfl⟩, hne⟩
    exact ⟨hb, rfl, hne⟩
  · rintro ⟨hb, hg, hne⟩
    exact ⟨⟨g.1, hb, Prod.ext rfl hg.symm⟩, hne⟩

/-- A label without invoices adds nothing, so the groups that are left out do not matter. -/
theorem sum_groups (currentDate : Date) (rows : List Due) :
    (((groups currentDate rows).map bucketOfGroup).map UnpaidBucket.amount).sum =
      (bucketLabels.map fun b => Db.unpaidSum (rows.filter (Counted currentDate b))).sum := by
  unfold groups
  induction bucketLabels with
  | nil => rfl
  | cons b labels ih =>
    rw [List.map_cons, List.map_cons, List.sum_cons, ← ih, List.filter_cons]
    by_cases hne : rows.filter (Counted currentDate b) = []
    · rw [if_neg (by simpa using hne), hne]
      simp [Db.unpaidSum]
    · rw [if_pos (by simpa using hne)]
      rfl

/-- What an invoice adds to the buckets. -/
def countedAmount (d : Due) : ℤ := if d.date.isSome ∧ d.total > d.paid then d.total - d.paid else 0

theorem sum_filter_eq {α : Type} (p : α → Bool) (g : α → ℤ) (xs : List α) :
    ((xs.filter p).map g).sum = (xs.map fun x => if p x then g x else 0).sum := by
  induction xs with
  | nil => rfl
  | cons x xs ih =>
    rw [List.filter_cons, List.map_cons, List.sum_cons, ← ih]
    cases hp : p x <;> simp

theorem sum_ite_eq_countP {α : Type} (p : α → Bool) (c : ℤ) (xs : List α) :
    (xs.map fun x => if p x then c else 0).sum = xs.countP p * c := by
  induction xs with
  | nil => simp
  | cons x xs ih =>
    rw [List.map_cons, List.sum_cons, ih, List.countP_cons]
    cases hp : p x
    · simp
    · simp only [if_true]
      push_cast
      ring

theorem sum_buckets (currentDate : Date) (rows : List Due) :
    (bucketLabels.map fun b => Db.unpaidSum (rows.filter (Counted currentDate b))).sum =
      (rows.map countedAmount).sum := by
  have hswap : (bucketLabels.map fun b => Db.unpaidSum (rows.filter (Counted currentDate b))).sum =
      (rows.map fun d => (bucketLabels.map fun b =>
        if Counted currentDate b d then d.total - d.paid else 0).sum).sum := by
    unfold Db.unpaidSum
    simp only [sum_filter_eq]
    induction rows with
    | nil => simp
    | cons d rows ih => simp only [List.map_cons, List.sum_cons, List.sum_map_add, ih]
  rw [hswap]
  congr 1
  refine List.map_congr_left fun d _ => ?_
  rw [sum_ite_eq_countP, countP_labels, countedAmount]
  split_ifs <;> simp

/-- The unpaid amounts are those of the buckets, of the invoices without a date, and of the dated
invoices that are paid or overpaid. -/
theorem unpaidSum_eq_buckets (rows : List Due) :
    Db.unpaidSum rows = (rows.map countedAmount).sum +
      Db.unpaidSum (rows.filter fun d => d.date.isNone) +
      Db.unpaidSum (rows.filter fun d => d.date.isSome && decide (d.total ≤ d.paid)) := by
  unfold Db.unpaidSum
  induction rows with
  | nil => rfl
  | cons d rows ih =>
    simp only [List.map_cons, List.sum_cons, List.filter_cons, countedAmount]
    cases hdate : d.date with
    | none =>
      simp only [Option.isSome_none, Option.isNone_none, Bool.false_and, if_true, if_false,
        List.map_cons, List.sum_cons, Bool.false_eq_true, false_and]
      omega
    | some date =>
      by_cases hle : d.total ≤ d.paid
      · have hnot : ¬ d.total > d.paid := by omega
        simp only [Option.isSome_some, Option.isNone_some, hle, hnot, decide_true, Bool.and_self,
          and_false, if_true, if_false, Bool.false_eq_true, List.map_cons, List.sum_cons]
        omega
      · have hgt : d.total > d.paid := by omega
        simp only [Option.isSome_some, Option.isNone_some, hle, hgt, decide_false, Bool.and_false,
          and_self, if_true, if_false, Bool.false_eq_true]
        omega

/-! ## The reports together -/

/-- The reports return, the total is the buckets' amounts and the unpaid amounts without a date,
each bucket has the number of its invoices, and each dated invoice with something unpaid is counted
in one bucket. -/
def Reconciles (t : InvoiceType) (currentDate : Date) (db : Db) : Prop :=
  ∃ total buckets, unpaidTotal t db = .ok total ∧ unpaidAging t currentDate db = .ok buckets ∧
    total = (buckets.map UnpaidBucket.amount).sum +
      Db.unpaidSum ((db.dues t).filter fun d => d.date.isNone) ∧
    (∀ b ∈ buckets, b.count = (db.dues t).countP (Counted currentDate b.bucket)) ∧
    ∀ d ∈ db.dues t, d.date.isSome → d.total - d.paid ≠ 0 →
      buckets.countP (fun b => Counted currentDate b.bucket d) = 1

/-- The unpaid amount of each invoice, of all of them and of each bucket are 64-bit integers. -/
structure AmountsFit (currentDate : Date) (rows : List Due) : Prop where
  all : Summable rows
  bucket : ∀ b ∈ bucketLabels, Arith.i64.Fits (Db.unpaidSum (rows.filter (Counted currentDate b)))

theorem amountsFit_iff {currentDate : Date} {rows : List Due} :
    AmountsFit currentDate rows ↔
      Summable rows ∧ ∀ g ∈ groups currentDate rows, Summable g.2 := by
  constructor
  · rintro ⟨hall, hbucket⟩
    refine ⟨hall, fun g hg => ?_⟩
    obtain ⟨hlabel, hrows, -⟩ := mem_groups.mp hg
    rw [hrows]
    exact ⟨fun d hd => hall.1 d (List.mem_of_mem_filter hd), hbucket _ hlabel⟩
  · rintro ⟨hall, hgroups⟩
    refine ⟨hall, fun b hb => ?_⟩
    by_cases hne : rows.filter (Counted currentDate b) = []
    · rw [hne]
      exact rfl
    · exact (hgroups (b, _) (mem_groups.mpr ⟨hb, rfl, hne⟩)).2

/-- An invoice is counted in as many buckets as labels. -/
theorem countP_groups {currentDate : Date} {rows : List Due} {d : Due} (hd : d ∈ rows) :
    ((groups currentDate rows).map bucketOfGroup).countP (fun b => Counted currentDate b.bucket d) =
      bucketLabels.countP fun b => Counted currentDate b d := by
  unfold groups
  induction bucketLabels with
  | nil => rfl
  | cons b labels ih =>
    rw [List.map_cons, List.filter_cons, List.countP_cons, ← ih]
    by_cases hne : rows.filter (Counted currentDate b) = []
    · have hnot : Counted currentDate b d = false := by
        have h := List.filter_eq_nil_iff.mp hne d hd
        simpa using h
      rw [if_neg (by simpa using hne), hnot]
      rfl
    · rw [if_pos (by simpa using hne), List.map_cons, List.countP_cons]
      rfl

/-- The reports on a table reconcile exactly when no dated invoice is overpaid or has a negative
total, as long as the amounts can be returned. -/
theorem reconciles_iff (t : InvoiceType) (currentDate : Date) (db : Db) :
    Reconciles t currentDate db ↔
      (∀ d ∈ db.dues t, d.date.isSome → d.paid ≤ d.total) ∧
        AmountsFit currentDate (db.dues t) := by
  unfold Reconciles
  rw [unpaidTotal_eq, unpaidAging_eq, amountsFit_iff]
  constructor
  · rintro ⟨total, buckets, htotal, hbuckets, -, -, honce⟩
    obtain ⟨hall, -⟩ := sumUnpaid_eq_ok.mp htotal
    obtain ⟨hgroups, rfl⟩ := aging_eq_ok.mp hbuckets
    refine ⟨fun d hd hdate => ?_, hall, hgroups⟩
    by_contra hlt
    have hone := honce d hd hdate (by omega)
    rw [countP_groups hd, countP_labels, if_neg (by omega)] at hone
    omega
  · rintro ⟨hle, hall, hgroups⟩
    refine ⟨_, _, sumUnpaid_eq_ok.mpr ⟨hall, rfl⟩, aging_eq_ok.mpr ⟨hgroups, rfl⟩, ?_, ?_, ?_⟩
    · -- the dated invoices that no bucket counts are paid in full
      have hpaid : Db.unpaidSum ((db.dues t).filter fun d =>
          d.date.isSome && decide (d.total ≤ d.paid)) = 0 := by
        refine List.sum_eq_zero fun x hx => ?_
        obtain ⟨d, hd, rfl⟩ := List.mem_map.mp hx
        obtain ⟨hmem, hcond⟩ := List.mem_filter.mp hd
        rw [Bool.and_eq_true, decide_eq_true_eq] at hcond
        have := hle d hmem hcond.1
        omega
      rw [sum_groups, sum_buckets, unpaidSum_eq_buckets, hpaid]
      omega
    · intro b hb
      obtain ⟨g, hg, rfl⟩ := List.mem_map.mp hb
      obtain ⟨-, hrows, -⟩ := mem_groups.mp hg
      show g.2.length = _
      rw [hrows, List.countP_eq_length_filter]
      rfl
    · intro d hd hdate hne
      have := hle d hd hdate
      rw [countP_groups hd, countP_labels, if_pos ⟨hdate, by omega⟩]

end InvoicePort

/-! ## Tables that requests leave -/

/-- The requests that write invoices. -/
inductive InvoiceRequest where
  | salesInvoice (ctx : Operator) (request : SalesInvoiceCreate.CreateInvoiceRequest)
  | purchaseInvoice (ctx : Operator) (request : PurchaseInvoiceCreate.CreateInvoiceRequest)
  | payment (ctx : Operator) (request : PaymentCreate.CreatePaymentRequest)

namespace InvoiceRequest

def run : InvoiceRequest → Handler Unit
  | salesInvoice ctx request => do
    let _ ← SalesInvoiceCreate.execute ctx request
    pure ()
  | purchaseInvoice ctx request => do
    let _ ← PurchaseInvoiceCreate.execute ctx request
    pure ()
  | payment ctx request => do
    let _ ← PaymentCreate.execute ctx request
    pure ()

end InvoiceRequest

/-- What requests, one after another, make of a database without invoices. -/
inductive Invoiced : Db → Prop where
  | start {db : Db} (hinvoices : ∀ t id, db.invoice? t id = none) : Invoiced db
  | serve {db db' : Db} {r : InvoiceRequest} {result : Except AppError Unit} (h : Invoiced db)
      (hr : r.run.Transacts db db' result) : Invoiced db'

/-- One sales order, and no invoice. -/
def oneOrder : Db :=
  { Db.empty with salesOrders := Table.empty.insert { id := 2, customerId := 3, status := 1 } }

/-- An invoice that credits an order with 100. -/
def creditInvoice : InvoiceRequest :=
  .salesInvoice ⟨1, none, none⟩ ⟨2, none, some 0, -100, none, none⟩

/-- An invoice over a negative amount is in the total and in no bucket. -/
theorem creditInvoice_not_reconciles :
    ∃ db, Invoiced db ∧ db.dues .sales = [⟨some 0, -100, 0⟩] ∧
      InvoicePort.unpaidTotal .sales db = .ok (-100) ∧
      InvoicePort.unpaidAging .sales 0 db = .ok [] ∧ ¬ InvoicePort.Reconciles .sales 0 db := by
  have hstart : Invoiced oneOrder := .start fun t id => by cases t <;> rfl
  refine ⟨_, hstart.serve (Prog.transact_transacts (numbered 100) creditInvoice.run oneOrder),
    ?_, ?_, ?_, ?_⟩
  · decide +kernel
  · decide +kernel
  · decide +kernel
  · rintro ⟨total, buckets, -, hbuckets, -, -, honce⟩
    have hnone : InvoicePort.unpaidAging .sales 0
        (creditInvoice.run.transact (numbered 100) oneOrder).1 = .ok [] := by decide +kernel
    obtain rfl := Except.ok.inj (hnone.symm.trans hbuckets)
    have hone := honce ⟨some 0, -100, 0⟩ (by decide +kernel) rfl (by decide)
    exact absurd hone (by decide)

end Slab
