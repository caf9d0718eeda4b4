import Slab.Erp.Services

/-!
# Invoices and payments

The handlers of `POST /api/v1/payments`, `POST /api/v1/sales-invoices` and
`POST /api/v1/purchase-invoices`, and the port through which invoices are read: locked, as an
unpaid total, and as unpaid amounts by age.

## Main definitions

- `InvoicePort.byId` — the locked amounts of an invoice
- `InvoicePort.unpaidTotal`, `InvoicePort.unpaidAging` — the two reports
- `PaymentCreate.execute`, `SalesInvoiceCreate.execute`, `PurchaseInvoiceCreate.execute`
-/

namespace Slab

open Txn

inductive InvoiceType where
  | sales | purchase
deriving DecidableEq

namespace InvoiceType

def fromStr (s : String) : Except AppError InvoiceType :=
  if s = "sales_invoice" then .ok sales
  else if s = "purchase_invoice" then .ok purchase
  else .error (.finance .invalidInvoiceType)

def asStr : InvoiceType → String
  | sales => "sales_invoice"
  | purchase => "purchase_invoice"

/-- The table of the type, `table_name`. -/
def table : InvoiceType → TableName
  | sales => .salesInvoices
  | purchase => .purchaseInvoices

theorem fromStr_eq_ok {s : String} {t : InvoiceType} : fromStr s = .ok t ↔ s = t.asStr := by
  unfold fromStr
  by_cases hs : s = "sales_invoice"
  · subst hs
    cases t <;> simp [asStr]
  · rw [if_neg hs]
    by_cases hp : s = "purchase_invoice"
    · subst hp
      cases t <;> simp [asStr]
    · rw [if_neg hp]
      cases t <;> simp [asStr, hs, hp]

end InvoiceType

structure InvoiceInfo where
  totalAmount : ℤ
  paidAmount : ℤ
deriving DecidableEq

/-- `SET paid_amount = $1`. -/
def SalesInvoiceRow.setPaid (paid : ℤ) (r : SalesInvoiceRow) : SalesInvoiceRow :=
  { r with paidAmount := paid }

theorem SalesInvoiceRow.setPaid_id (paid : ℤ) (r : SalesInvoiceRow) : (r.setPaid paid).id = r.id :=
  rfl

/-- `SET paid_amount = $1`. -/
def PurchaseInvoiceRow.setPaid (paid : ℤ) (r : PurchaseInvoiceRow) : PurchaseInvoiceRow :=
  { r with paidAmount := paid }

theorem PurchaseInvoiceRow.setPaid_id (paid : ℤ) (r : PurchaseInvoiceRow) :
    (r.setPaid paid).id = r.id := rfl

namespace Db

/-- The amounts of an invoice. -/
def invoice? (db : Db) : InvoiceType → ID → Option InvoiceInfo
  | .sales, id => (db.salesInvoices.get? id).map fun r => ⟨r.totalAmount, r.paidAmount⟩
  | .purchase, id => (db.purchaseInvoices.get? id).map fun r => ⟨r.totalAmount, r.paidAmount⟩

/-- `UPDATE … SET paid_amount = $1 WHERE id = $2` on the table of the type. -/
def setPaid (t : InvoiceType) (id : ID) (paid : ℤ) (db : Db) : Db :=
  match t with
  | .sales => { db with
      salesInvoices := db.salesInvoices.modify id (SalesInvoiceRow.setPaid paid)
        (SalesInvoiceRow.setPaid_id paid) }
  | .purchase => { db with
      purchaseInvoices := db.purchaseInvoices.modify id (PurchaseInvoiceRow.setPaid paid)
        (PurchaseInvoiceRow.setPaid_id paid) }

/-- What an invoice contributes to the reports: its date and its amounts. -/
structure Due where
  date : Option Date
  total : ℤ
  paid : ℤ
deriving DecidableEq

/-- The invoices of a type as the reports read them. -/
def dues (db : Db) : InvoiceType → List Due
  | .sales => db.salesInvoices.rows.map fun r => ⟨r.invoiceDate, r.totalAmount, r.paidAmount⟩
  | .purchase => db.purchaseInvoices.rows.map fun r => ⟨r.invoiceDate, r.totalAmount, r.paidAmount⟩

end Db

open Db (Due)

structure UnpaidBucket where
  bucket : String
  count : ℕ
  amount : ℤ
deriving DecidableEq

namespace InvoicePort

/-! ## The locked row -/

/-- `SELECT total_amount, paid_amount … FOR UPDATE` on the table of the type. -/
def lockAmounts (t : InvoiceType) (invoiceId : ID) : Handler InvoiceInfo := do
  let row ← Prog.selectForUpdate
    (fun db => lockRow t.table invoiceId (db.invoice? t invoiceId).isSome)
    fun db => db.invoice? t invoiceId
  Prog.orFail row (.finance .invoiceNotFound)

def bySalesId (invoiceId : ID) : Handler InvoiceInfo := lockAmounts .sales invoiceId

def byPurchaseId (invoiceId : ID) : Handler InvoiceInfo := lockAmounts .purchase invoiceId

def byId (invoiceType : InvoiceType) (invoiceId : ID) : Handler InvoiceInfo :=
  match invoiceType with
  | .sales => bySalesId invoiceId
  | .purchase => byPurchaseId invoiceId

theorem byId_eq (t : InvoiceType) (invoiceId : ID) : byId t invoiceId = lockAmounts t invoiceId := by
  cases t <;> rfl

/-! ## Reports -/

/-- A result that has to be a BIGINT. -/
def toBigint (x : ℤ) : Except AppError ℤ :=
  if Arith.i64.Fits x then .ok x else .error (.sql .bigintOutOfRange)

/-- `COALESCE(SUM(total_amount - paid_amount), 0)::BIGINT`: the differences are BIGINTs, the
sum is not. -/
def sumUnpaid (rows : List Due) : Except AppError ℤ := do
  let amounts ← rows.mapM fun d => toBigint (d.total - d.paid)
  toBigint amounts.sum

def unpaidSalesTotal (db : Db) : Except AppError ℤ := sumUnpaid (db.dues .sales)

def unpaidPurchaseTotal (db : Db) : Except AppError ℤ := sumUnpaid (db.dues .purchase)

def unpaidTotal (t : InvoiceType) (db : Db) : Except AppError ℤ :=
  match t with
  | .sales => unpaidSalesTotal db
  | .purchase => unpaidPurchaseTotal db

/-- `CASE WHEN CURRENT_DATE - invoice_date <= 30 …`. -/
def bucketOf (currentDate date : Date) : String :=
  if currentDate - date ≤ 30 then "0-30"
  else if currentDate - date ≤ 60 then "31-60"
  else if currentDate - date ≤ 90 then "61-90"
  else "90+"

/-- The labels that `bucketOf` has, in the order of `ORDER BY bucket`. -/
def bucketLabels : List String := ["0-30", "31-60", "61-90", "90+"]

/-- `WHERE total_amount > paid_amount AND invoice_date IS NOT NULL`, with the label of the
group. -/
def Counted (currentDate : Date) (bucket : String) (d : Due) : Bool :=
  match d.date with
  | some date => decide (d.total > d.paid) && decide (bucketOf currentDate date = bucket)
  | none => false

/-- The groups that have rows, in order. -/
def groups (currentDate : Date) (rows : List Due) : List (String × List Due) :=
  (bucketLabels.map fun b => (b, rows.filter (Counted currentDate b))).filter fun g => g.2 ≠ []

def aging (currentDate : Date) (rows : List Due) : Except AppError (List UnpaidBucket) :=
  (groups currentDate rows).mapM fun g => do
    let amount ← sumUnpaid g.2
    pure { bucket := g.1, count := g.2.length, amount := amount }

def unpaidSalesAging (currentDate : Date) (db : Db) : Except AppError (List UnpaidBucket) :=
  aging currentDate (db.dues .sales)

def unpaidPurchaseAging (currentDate : Date) (db : Db) : Except AppError (List UnpaidBucket) :=
  aging currentDate (db.dues .purchase)

def unpaidAging (t : InvoiceType) (currentDate : Date) (db : Db) :
    Except AppError (List UnpaidBucket) :=
  match t with
  | .sales => unpaidSalesAging currentDate db
  | .purchase => unpaidPurchaseAging currentDate db

end InvoicePort

/-! ## Creating invoices -/

/-- `invoice_date.unwrap_or_else(today_naive)`. -/
def invoiceDateOrToday : Option Date → Handler Date
  | some d => pure d
  | none => ask .today

namespace SalesInvoiceCreate

structure CreateInvoiceRequest where
  orderId : ID
  invoiceNumber : Option String
  invoiceDate : Option Date
  amount : ℤ
  taxAmount : Option ℤ
  remark : Option String
deriving DecidableEq

structure CreateInvoiceResponse where
  id : ID
  code : String
deriving DecidableEq

/-- The stored invoice. -/
def invoice (id customerId : ID) (code : String) (invoiceDate : Date)
    (request : CreateInvoiceRequest) : SalesInvoiceRow where
  id := id
  code := code
  orderId := request.orderId
  customerId := customerId
  invoiceNumber := request.invoiceNumber
  invoiceDate := some invoiceDate
  amount := request.amount
  taxAmount := request.taxAmount.getD 0
  totalAmount := Arith.i64.add request.amount (request.taxAmount.getD 0)
  status := 0
  remark := request.remark
  paidAmount := 0

def execute (ctx : Operator) (request : CreateInvoiceRequest) :
    Handler CreateInvoiceResponse := do
  let found ← Prog.select fun db => db.salesOrders.get? request.orderId
  let order ← Prog.orFail found (.sales .notFound)
  let code ← DocNumberer.nextNumber "seq_sales_invoice" "SINV"
  let id ← ask .newId
  let invoiceDate ← invoiceDateOrToday request.invoiceDate
  insertRow .salesInvoices id (fun db => db.salesInvoices.has id) fun db =>
    { db with
      salesInvoices := db.salesInvoices.insert (invoice id order.customerId code invoiceDate request) }
  let row ← Prog.select fun db => db.salesInvoices.get? id
  let invoice ← Prog.orFail row (.sql .rowNotFound)
  AuditService.recordCreate "sales_invoice" id ctx (.salesInvoice invoice.toSalesInvoice)
  pure { id := id, code := code }

end SalesInvoiceCreate

namespace PurchaseInvoiceCreate

structure CreateInvoiceRequest where
  orderId : ID
  invoiceNumber : Option String
  invoiceDate : Option Date
  amount : ℤ
  taxAmount : Option ℤ
  remark : Option String
deriving DecidableEq

structure CreateInvoiceResponse where
  id : ID
  code : String
deriving DecidableEq

/-- The stored invoice. -/
def invoice (id supplierId : ID) (code : String) (invoiceDate : Date)
    (request : CreateInvoiceRequest) : PurchaseInvoiceRow where
  id := id
  code := code
  orderId := request.orderId
  supplierId := supplierId
  invoiceNumber := request.invoiceNumber
  invoiceDate := some invoiceDate
  amount := request.amount
  taxAmount := request.taxAmount.getD 0
  totalAmount := Arith.i64.add request.amount (request.taxAmount.getD 0)
  status := 0
  remark := request.remark
  paidAmount := 0

def execute (ctx : Operator) (request : CreateInvoiceRequest) :
    Handler CreateInvoiceResponse := do
  let found ← Prog.select fun db => db.purchaseOrders.get? request.orderId
  let order ← Prog.orFail found (.purchase .notFound)
  let code ← DocNumberer.nextNumber "seq_purchase_invoice" "INV"
  let id ← ask .newId
  let invoiceDate ← invoiceDateOrToday request.invoiceDate
  insertRow .purchaseInvoices id (fun db => db.purchaseInvoices.has id) fun db =>
    { db with
      purchaseInvoices :=
        db.purchaseInvoices.insert (invoice id order.supplierId code invoiceDate request) }
  let row ← Prog.select fun db => db.purchaseInvoices.get? id
  let invoice ← Prog.orFail row (.sql .rowNotFound)
  AuditService.recordCreate "purchase_invoice" id ctx (.purchaseInvoice invoice.toPurchaseInvoice)
  pure { id := id, code := code }

end PurchaseInvoiceCreate

/-! ## Payments -/

namespace PaymentCreate

structure CreatePaymentRequest where
  paymentType : ℤ
  invoiceType : String
  invoiceId : ID
  amount : ℤ
  paymentDate : Option Date
  paymentMethod : Option String
  remark : Option String
deriving DecidableEq

structure CreatePaymentResponse where
  id : ID
  code : String
deriving DecidableEq

/-- `payment_date.unwrap_or_else(|| Utc::now().date_naive())`. -/
def paymentDateOrToday : Option Date → Handler Date
  | some d => pure d
  | none => ask .utcDate

/-- The stored payment. -/
def payment (id : ID) (code : String) (paymentDate : Date) (request : CreatePaymentRequest) :
    Payment where
  id := id
  code := code
  paymentType := request.paymentType
  invoiceType := request.invoiceType
  invoiceId := request.invoiceId
  amount := request.amount
  paymentDate := paymentDate
  paymentMethod := request.paymentMethod
  remark := request.remark

def insertPayment (row : Payment) : Handler Unit :=
  insertRow .payments row.id (fun db => db.payments.has row.id) fun db =>
    { db with payments := db.payments.insert row }

/-- The audit row, from the payment read back. -/
def recordPayment (ctx : Operator) (id : ID) : Handler Unit := do
  let row ← Prog.select fun db => db.payments.get? id
  let payment ← Prog.orFail row (.sql .rowNotFound)
  AuditService.recordCreate "payment" id ctx (.payment payment)

def updatePaid (invoiceType : InvoiceType) (invoiceId : ID) (newPaid : ℤ) : Handler Unit :=
  Prog.update
    (fun db => lockRow invoiceType.table invoiceId (db.invoice? invoiceType invoiceId).isSome)
    (Db.setPaid invoiceType invoiceId newPaid)

def execute (ctx : Operator) (request : CreatePaymentRequest) :
    Handler CreatePaymentResponse := do
  Prog.ensure (!decide (request.amount ≤ 0)) (.finance .invalidPaymentAmount)
  let invoiceType ← Prog.ofExcept (InvoiceType.fromStr request.invoiceType)
  let inv ← InvoicePort.byId invoiceType request.invoiceId
  let newPaid := Arith.i64.add inv.paidAmount request.amount
  Prog.ensure (!decide (newPaid > inv.totalAmount)) (.finance .invoiceAlreadyFullyPaid)
  let code ← DocNumberer.nextNumber "seq_payment" "PAY"
  let id ← ask .newId
  let paymentDate ← paymentDateOrToday request.paymentDate
  insertPayment (payment id code paymentDate request)
  recordPayment ctx id
  updatePaid invoiceType request.invoiceId newPaid
  pure { id := id, code := code }

end PaymentCreate

end Slab
